import SinFrontend.Parser.Block
import SinFrontend.Parser.QualityList
import SinFrontend.Returns

/-!
# Reading declarations, allocations and definitions

The statements that introduce names:

    decl         ::= "decl" ("struct" identifier | typed-name [params | ":" expression])
    alloc        ::= "alloc" typed-name [":" expression]
    def          ::= "def" (typed-name params body | "struct" identifier body)
    typed-name   ::= type identifier ["&" quality+]
    params       ::= "(" [decl ("," decl)*] ")"
    body         ::= "{" statement* "}"

Only a parameter may be declared with a value. The type of an allocation must satisfy the policy of
`DataType.isValid`, and a function must return on every path. Each rule is entered behind its first
word, with the line of that word.
-/

namespace SinFrontend.Parser

/-! ## Parts -/

/-- Demands that a word follows that can begin a type. -/
def expectTypeStart (line : Nat) : Parser Unit := do
  let next ← peek
  unless next.kind == .keyword || next.kind == .identifier do
    reject (.expectedType next.text) line

/-- The type and the name of a variable or function, and the qualities behind the name. -/
def typedName (parse : Descent) (context : String) : Parser (DataType × String) := do
  let type ← parse .typeName
  let name ← expectIdentifier context
  return (← withPostfixedQualities type, name)

/-- The name of a struct. -/
def structName : Parser String := do
  if (← peek).kind == .identifier then
    return (← advance).text
  else
    reject .illegalStructName (← currentLine)

/-- Formal parameters up to the closing parenthesis. Each is a declaration. -/
def parametersRule (parse : Descent) : Parser (List Statement) := do
  if ← atPunctuation ")" then
    return []
  else
    let line ← currentLine
    match ← parse (.statement true) with
    | some parameter =>
      unless parameter.isDeclaration do
        reject .parameterMustBeDeclaration line
      unless ← takePunctuation "," do
        unless ← atPunctuation ")" do
          reject (.missingGroupingSymbol ")" "to close parameter list") (← currentLine)
      return parameter :: (← parse .parameters)
    | none => reject .parameterMustBeDeclaration line

/-- Formal parameters behind the opening parenthesis, and the closing one. -/
def formalParameters (parse : Descent) : Parser (List Statement) := do
  let params ← parse .parameters
  move Cursor.advance
  return params

/-- The body of a definition with its braces. An empty body is warned of. -/
def definitionBody (parse : Descent) (missing empty : String) : Parser Block := do
  unless ← takePunctuation Grouping.brace.opening do
    reject (.malformedConstruct missing) (← currentLine)
  if ← atPunctuation Grouping.brace.closing then
    warn empty (← currentLine) 111
  closedBlock parse "to close definition body"

/-! ## Declarations and allocations -/

/-- A declaration of a struct behind the word `struct`. -/
def structDeclaration (line : Nat) : Parser Statement := do
  let name ← structName
  expectStatementEnd
  return ⟨.declaration (.structNamed name .empty) name none false true [], line⟩

/-- The value of a declaration, if one is given. -/
def declaredValue (parse : Descent) (isParameter : Bool) : Parser (Option Expression) := do
  if (← peek).isOperator ":" then
    unless isParameter do
      reject .initializerInDeclaration (← currentLine)
    move Cursor.advance
    return some (← parse (.expression {}))
  else
    return none

/-- A declaration of a variable or function. -/
def typedDeclaration (parse : Descent) (line : Nat) (isParameter : Bool) : Parser Statement := do
  expectTypeStart line
  let (type, name) ← typedName parse "after type in declaration"
  if ← takePunctuation "(" then
    let params ← formalParameters parse
    expectStatementEnd
    return ⟨.declaration type name none true false params, line⟩
  else
    let value ← declaredValue parse isParameter
    expectStatementEnd
    return ⟨.declaration type name value false false [], line⟩

/-- A declaration. -/
def declaration (parse : Descent) (line : Nat) (isParameter : Bool) : Parser Statement := do
  if ← takeKeyword "struct" then structDeclaration line
  else typedDeclaration parse line isParameter

/-- An allocation. -/
def allocation (parse : Descent) (line : Nat) : Parser Statement := do
  expectTypeStart line
  let (type, name) ← typedName parse "after type in allocation"
  unless type.isValid do
    reject .invalidType (← previousLine)
  let value ← if ← takeOperator ":" then some <$> parse (.expression {}) else pure none
  expectStatementEnd
  return ⟨.allocation type name value, line⟩

/-! ## Definitions -/

/-- Stops with an error of the return check. -/
def demandReturn (body : Block) (name : String) (line : Nat) : Parser Unit :=
  match body.bodyReturns with
  | .ok true => pure ()
  | .ok false => reject (.functionWithoutReturn name) line
  | .error error => throw (.rejected error)

/-- A definition of a function. -/
def functionDefinition (parse : Descent) (line : Nat) : Parser Statement := do
  let (returnType, name) ← typedName parse "for function name"
  unless ← takePunctuation "(" do
    reject (.malformedConstruct "Function definition requires '(' and ')'") line
  let params ← formalParameters parse
  let body ← definitionBody parse
    "Function definition requires use of curly braces after arguments"
    "Empty function definition"
  demandReturn body name line
  return ⟨.functionDefinition name returnType params body, line⟩

/-- A definition of a struct behind the word `struct`. -/
def structDefinition (parse : Descent) (line : Nat) : Parser Statement := do
  let name ← structName
  let body ← definitionBody parse
    "Expected scoped block in struct definition"
    "Empty struct definition"
  return ⟨.structDefinition name body, line⟩

/-- A definition. -/
def definition (parse : Descent) (line : Nat) : Parser Statement := do
  if ← takeKeyword "struct" then structDefinition parse line
  else functionDefinition parse line

end SinFrontend.Parser
