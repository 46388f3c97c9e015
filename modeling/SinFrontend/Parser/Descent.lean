import SinFrontend.Parser.Command
import SinFrontend.Parser.Operand
import SinFrontend.Parser.Operation
import SinFrontend.Parser.TypeName
import SinFrontend.Token.Source

/-!
# Parsers for whole trees

The rules of the grammar are tied together by `descend`, which reads a goal in a given number of
steps down from rule to rule. Every rule that asks for another goal reads a token first, or will
read one after a few more steps; `stepsFor` allows each token several steps. A text that ends where
an operand must follow is the exception: there the last token is handed out again and again, and
every number of steps is used up.

* `Parser.expression`, `Parser.block` and `Parser.program` read whole trees.
* `Parser.topLevelStatement` reads one statement, and `Parser.synchronize` passes over one that
  failed.
-/

namespace SinFrontend

namespace Parser

/-! ## Tying the rules together -/

/-- The rule of each goal. -/
def rule (parse : Descent) : Descent
  | _, .typeName => typeNameRule parse
  | _, .members => tupleMembers parse
  | _, .expression context => expressionRule parse context
  | _, .operations left floor context => operationsRule parse left floor context
  | _, .elements context => elementsRule parse context
  | _, .initializers => initializersRule parse
  | _, .statement isParameter => statementRule parse isParameter
  | _, .statements => statementsRule parse
  | _, .parameters => parametersRule parse

/-- Reads a goal in a number of steps. -/
def descend : Nat → Descent
  | 0 => fun _ _ => throw .unfinished
  | steps + 1 => rule (descend steps)

/-- The number of steps for the tokens of a cursor. -/
def stepsFor (cursor : Cursor) : Nat :=
  8 * cursor.size + 8

/-- Reads goals with as many steps as the tokens at hand may need. -/
def full : Descent := fun _ goal => do
  descend (stepsFor (← get).cursor) goal

/-! ## Whole trees -/

/-- An expression. What follows it is left. -/
def expression (context : Context) : Parser Expression :=
  full (.expression context)

/-- Statements up to a closing brace, which is left, or to the end of input. -/
def statementBlock : Parser Block :=
  block full

/-- A whole program: statements up to the end of input. -/
def program : Parser Block := do
  let program ← statementBlock
  unless ← atEnd do
    let next ← peek
    reject (.invalidStatementStart next.text) next.line
  return program

/-- One statement at the top level: nothing at the end of input, and nothing for a `pass`. -/
def topLevelStatement : Parser (Option Statement) := do
  skipSemicolons
  if ← atEnd then
    return none
  else
    modify fun session => { session with statementStart := session.cursor.passed.length }
    full (.statement false)

/-- Passes over the rest of the last top-level statement after it failed. -/
def synchronize : Parser Unit :=
  modify Session.synchronize

end Parser

/-- A session over the tokens of a text, if the text has tokens. -/
def Session.ofText (text : String) : Except CompileError Session :=
  (Token.ofText text).map Session.ofTokens

end SinFrontend
