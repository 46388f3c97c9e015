import SinFrontend.Parser.Goal

/-!
# Reading blocks

A block is a run of statements up to a closing brace or the end of input. Semicolons between the
statements are skipped. A `pass` leaves no statement; beside other statements it is noted as
having no effect.
-/

namespace SinFrontend.Parser

/-- Statements up to a closing brace or the end of input, each with its line. -/
def statementsRule (parse : Descent) : Parser (List (Option Statement × Nat)) := do
  skipSemicolons
  if (← atEnd) || (← atPunctuation Grouping.brace.closing) then
    return []
  else
    let line ← currentLine
    let statement ← parse (.statement false)
    return (statement, line) :: (← parse .statements)

/-- The note on a `pass` that stands beside other statements. -/
def passNote : String :=
  "'pass' has no effect in a block with other statements"

/-- A block, without braces. What closes it is left. -/
def block (parse : Descent) : Parser Block := do
  let entries ← parse .statements
  let block := Block.ofList (entries.filterMap (·.1))
  let passes := (entries.filter (·.1.isNone)).map (·.2)
  unless block.isEmpty do
    passes.forM (note passNote)
  return block

/-- A block whose opening brace has been read, and its closing brace. -/
def closedBlock (parse : Descent) (context : String) : Parser Block := do
  let block ← block parse
  expectPunctuation Grouping.brace.closing context
  return block

end SinFrontend.Parser
