import SinFrontend.Parser.Construction
import SinFrontend.Parser.QualityList

/-!
# Reading expressions

    expression ::= ["constexpr"] operand ["&" ("constexpr" | quality+)] operation*
    operand    ::= literal | identifier | "(" list ")" | "{" list "}" | "[" expression "]"
                 | "not" expression | "@" expression | prefix-operator expression
                 | "construct" [word] construction | attribute word | type
    list       ::= [expression ("," expression)*]

The operations behind the operand are read by the rule of the goal `Goal.operations`. A list takes
part in no operation.
-/

namespace SinFrontend.Parser

/-! ## Groups -/

/-- The list kind of a group; brackets enclose no list. -/
def listKindOf (group : Grouping) : Parser ListKind := do
  match group.listKind? with
  | some kind => return kind
  | none => reject (.illegalListGrouping group.opening) (← currentLine)

/-- The elements of a list behind its first one. -/
def elementsRule (parse : Descent) (context : Context) : Parser (List Expression) := do
  if ← takePunctuation "," then
    let element ← parse (.expression context)
    return element :: (← parse (.elements context))
  else
    return []

/-- The inside of a group whose opening symbol has been read, and its closing symbol. The mark
tells whether it is a list; a list is constant if all its elements are. -/
def group (parse : Descent) (opened : Grouping) : Parser (Expression × Bool) := do
  if ← atPunctuation opened.closing then
    let kind ← listKindOf opened
    move Cursor.advance
    return (.emptyList kind, true)
  else
    let first ← parse (.expression (.within opened))
    if ← atPunctuation "," then
      let kind ← listKindOf opened
      let elements := first :: (← parse (.elements (.within opened)))
      expectPunctuation opened.closing "to close list"
      return (.list kind elements .empty (elements.all Expression.isConst), true)
    else
      expectPunctuation opened.closing "to close grouped expression"
      return (first, false)

/-! ## Operands -/

/-- A prefix operator with the operand that it binds. -/
def unary (parse : Descent) (context : Context) (op : Operator) : Parser Expression := do
  let operand ← parse (.expression (context.operand op.precedence))
  return .unary op operand operand.isConst

/-- An expression that begins with an operator, which has been read. The sign `@` makes a call of
the procedure behind it. -/
def operatorOperand (parse : Descent) (context : Context) (token : Token) : Parser Expression := do
  if token.text == Operator.controlTransfer.symbol then
    match ← parse (.expression (context.operand Operator.controlTransfer.precedence)) with
    | .procedure name args constant => return .call name args constant
    | _ => reject .expectedProcedure token.line
  else
    match (Operator.ofSymbol? token.text).bind Operator.toUnary? with
    | some op => unary parse context op
    | none => reject (.invalidUnaryOperator token.text) token.line

/-- The word behind `construct`, if it names a type. -/
def constructedType : Parser (Option String) := do
  let next ← peek
  if next.kind == .keyword || next.kind == .identifier then
    return some (← advance).text
  else
    return none

/-- An expression that begins with a reserved word, which has been read. A word that begins
nothing else must begin a type; what is wrong with the type is not told. -/
def keywordOperand (parse : Descent) (context : Context) (token : Token) : Parser Expression := do
  if token.text == Operator.not.symbol then
    unary parse context .not
  else
    match Attribute.ofWord? token.text with
    | some attr => return .attributeName attr .empty false
    | none =>
      if token.text == "construct" then
        construction parse (← constructedType)
      else
        retreat
        let type ← explaining (parse .typeName) fun _ =>
          return ⟨.unexpectedKeyword token.text, token.line⟩
        return .typeName type false

/-- The operand that begins with a token, which has been read. The mark tells whether it is a
list. -/
def operand (parse : Descent) (context : Context) (token : Token) :
    Parser (Expression × Bool) := do
  match token.kind with
  | .eof => reject .unexpectedEndOfInput token.line
  | .identifier => return (.identifier token.text false, false)
  | .keyword => return (← keywordOperand parse context token, false)
  | .operator => return (← operatorOperand parse context token, false)
  | .punctuation =>
    match Grouping.ofOpening? token.text with
    | some opened => group parse opened
    | none => reject (.invalidToken token.text) token.line
  | .int => return (.ofLiteral .int token.text, false)
  | .float => return (.ofLiteral .float token.text, false)
  | .str => return (.ofLiteral .string token.text, false)
  | .char => return (.ofLiteral .char token.text, false)
  | .bool => return (.ofLiteral .bool token.text, false)

/-! ## Marks behind an operand -/

/-- Layers qualities on an operand behind which an `&` has been read. -/
def overrideQualities (operand : Expression) : Parser Expression := do
  let line ← currentLine
  let qualities ← explaining postfixedQualities fun error => do
    match error.cause with
    | .qualityConflict _ => return error
    | _ => return ⟨.expectedSymbolQuality (← peek).text, line⟩
  match operand.overrideQualities qualities with
  | (layered, none) => return layered
  | (_, some .unsupported) => reject .unexpectedSymbolQuality line
  | (_, some (.conflict conflict)) => rejectConflict conflict line

/-- Whether an `&` is next that a reserved word follows. It is no operator then: it introduces
`constexpr` or qualities. -/
def atPostfixedMark : Parser Bool := do
  return (← peek).isOperator "&" && (← keywordFollows)

/-- An operand with the mark behind it, if there is one, and whether that mark is `constexpr`. -/
def markedOperand (operand : Expression) : Parser (Expression × Bool) := do
  if ← atPostfixedMark then
    move Cursor.advance
    if ← takeKeyword "constexpr" then
      return (operand, true)
    else
      return (← overrideQualities operand, false)
  else
    return (operand, false)

/-! ## Expressions -/

/-- Whether the next token is an assignment. -/
def atAssignment : Parser Bool := do
  return (← peek).operator?.any fun op => op.isCopyAssignment || op.isMoveAssignment

/-- An operand, the mark behind it and the operations that it takes part in. It is constant if it
is marked so before or behind it, or a literal. -/
def continueOperand (parse : Descent) (context : Context) (marked : Bool)
    (operand : Expression × Bool) : Parser Expression := do
  let (operand, isList) := operand
  let (operand, markedBehind) ← markedOperand operand
  let operand :=
    if marked || markedBehind || operand.isLiteral then operand.setConst true else operand
  if context.primaryOnly || isList then
    return operand
  else if context.stopsAtAssignment && (← atAssignment) then
    return operand
  else
    parse (.operations operand context.floor context)

/-- An expression. -/
def expressionRule (parse : Descent) (context : Context) : Parser Expression := do
  let marked ← takeKeyword "constexpr"
  let token ← advance
  continueOperand parse context marked (← operand parse context token)

end SinFrontend.Parser
