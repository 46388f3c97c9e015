import SinFrontend.Parser.Goal

/-!
# Reading constructions

    construction ::= "{" (member ":" expression ",")* ["default" [","]] "}"

Members are initialized by name. The comma behind the last initializer may be left out, and
`default` leaves the members that are not named to their default values.
-/

namespace SinFrontend.Parser

/-- The initializers of a construction, up to a reserved word or the closing brace. -/
def initializersRule (parse : Descent) : Parser (List Initializer) := do
  let next ← peek
  if next.kind == .keyword || next.isPunctuation Grouping.brace.closing then
    return []
  else
    let member ← parse (.expression { closing := .brace, stopsAtAssignment := true })
    unless ← takeOperator ":" do
      reject .expectedInitialization (← currentLine)
    let value ← parse (.expression (.within .brace))
    unless ← takePunctuation "," do
      unless ← atPunctuation Grouping.brace.closing do
        reject .expectedListInitialization (← currentLine)
    return ⟨member, value⟩ :: (← parse .initializers)

/-- A construction with both its braces. It is constant if all its values are. -/
def construction (parse : Descent) (explicitType : Option String) : Parser Expression := do
  expectPunctuation Grouping.brace.opening "to begin construction"
  let initializers ← parse .initializers
  let hasDefault ← takeKeyword "default"
  if hasDefault then
    discard <| takePunctuation ","
  expectPunctuation Grouping.brace.closing "to close construction"
  return .construction explicitType initializers hasDefault
    (initializers.all fun initializer => initializer.value.isConst)

end SinFrontend.Parser
