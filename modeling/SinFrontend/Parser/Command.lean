import SinFrontend.Parser.Construction
import SinFrontend.Parser.Introduction

/-!
# Reading statements

    statement ::= include | decl | alloc | let | move | return | if | while | def | construct
                | "pass" | call | "{" statement* "}"
    let       ::= "let" expression ("=" | compound) expression
    move      ::= "move" expression ("<-" | "->") expression
    return    ::= "return" ["void" | expression]
    if        ::= "if" "(" expression ")" branch ["else" branch]
    while     ::= "while" "(" expression ")" branch
    branch    ::= statement [";"]
    construct ::= "construct" expression construction

A simple statement leaves the semicolon behind it to what encloses it. A branch reads its own
semicolon, and needs one unless it ends in a brace or in a branch that has read one. Each rule is
entered behind its first word, with the line of that word.
-/

namespace SinFrontend.Parser

/-! ## Simple statements -/

/-- An include directive. -/
def includeDirective (line : Nat) : Parser Statement := do
  if (← peek).kind == .str then
    let filename := (← advance).text
    expectStatementEnd
    return ⟨.includeFile filename, line⟩
  else
    reject .expectedFilename line

/-- The operator of a `let`. -/
def copyOperator : Parser Operator := do
  let token ← advance
  match token.operator? with
  | some op =>
    if op.isCopyAssignment then return op
    else if op.isMoveAssignment then reject .illegalMoveOperator token.line
    else reject (.invalidToken token.text) token.line
  | none => reject (.invalidToken token.text) token.line

/-- An assignment. Its value must begin on the line of the `let`. -/
def assignment (parse : Descent) (line : Nat) : Parser Statement := do
  let target ← parse (.expression { stopsAtAssignment := true })
  let op ← copyOperator
  if (← atPunctuation ";") || (← atEnd) || (← currentLine) != line then
    reject .expectedExpression line
  let value ← parse (.expression {})
  expectStatementEnd
  match op.compoundBase? with
  | none => return ⟨.assignment target value, line⟩
  | some base =>
    let value := .binary base target value (target.isConst && value.isConst)
    return ⟨.compoundAssignment target value base, line⟩

/-- A transfer of ownership. The right arrow names its destination last. -/
def movement (parse : Descent) (line : Nat) : Parser Statement := do
  let first ← parse (.expression {})
  match (← peek).operator? with
  | some op =>
    unless op.isMoveAssignment do
      reject .expectedMoveOperator line
    move Cursor.advance
    let second ← parse (.expression {})
    expectStatementEnd
    if op == .leftArrow then return ⟨.movement first second, line⟩
    else return ⟨.movement second first, line⟩
  | none => reject .expectedMoveOperator line

/-- The value of a return. The word `void`, and nothing at all, stand for the void literal. -/
def returnedValue (parse : Descent) (line : Nat) : Parser Expression := do
  if ← atPunctuation ";" then
    return .voidLiteral
  else if ← takeKeyword "void" then
    unless ← atPunctuation ";" do
      reject .missingSemicolon line
    return .voidLiteral
  else
    let value ← parse (.expression {})
    expectStatementEnd
    return value

/-- A call that stands as a statement, from its `@` on. -/
def callStatement (parse : Descent) (line : Nat) : Parser Statement := do
  let call ← parse (.expression {})
  unless call.isCall do
    reject (.illegalExpression "Expected a valid function call expression") line
  expectStatementEnd
  return ⟨.call call, line⟩

/-- A construction that stands as a statement. -/
def constructStatement (parse : Descent) (line : Nat) : Parser Statement := do
  let target ← parse (.expression { stopsAtBrace := true })
  let construction ← construction parse none
  return ⟨.construction target construction, line⟩

/-! ## Branches -/

/-- A condition in parentheses. -/
def condition (parse : Descent) (line : Nat) (missing : String) : Parser Expression := do
  unless ← takePunctuation "(" do
    reject (.malformedConstruct missing) line
  let condition ← parse (.expression {})
  expectPunctuation ")" "to close condition"
  return condition

/-- A branch. A `pass` becomes an empty block on the line where the branch begins. -/
def branch (parse : Descent) : Parser Statement := do
  let line ← currentLine
  let statement ← parse (.statement false)
  unless ← takePunctuation ";" do
    let last ← previous
    unless last.isPunctuation Grouping.brace.closing || last.isPunctuation ";" do
      reject .missingSemicolon (← previousLine)
  return statement.getD ⟨.scopedBlock .empty, line⟩

/-- An `if`, with or without an `else`. -/
def conditional (parse : Descent) (line : Nat) : Parser Statement := do
  let condition ← condition parse line "Condition must be enclosed in parens"
  let first ← branch parse
  if ← takeKeyword "else" then
    return ⟨.ifElse condition first (← branch parse), line⟩
  else
    return ⟨.ifThen condition first, line⟩

/-- A loop. -/
def loop (parse : Descent) (line : Nat) : Parser Statement := do
  let condition ← condition parse line "Expected a condition"
  return ⟨.whileLoop condition (← branch parse), line⟩

/-! ## Statements -/

/-- The statement that begins with a reserved word, which has been read. -/
def keywordStatement (parse : Descent) (isParameter : Bool) (token : Token) :
    Parser (Option Statement) :=
  let line := token.line
  match token.text with
  | "include" => some <$> includeDirective line
  | "decl" => some <$> declaration parse line isParameter
  | "alloc" => some <$> allocation parse line
  | "let" => some <$> assignment parse line
  | "move" => some <$> movement parse line
  | "return" => return some ⟨.returnValue (← returnedValue parse line), line⟩
  | "if" => some <$> conditional parse line
  | "while" => some <$> loop parse line
  | "def" => some <$> definition parse line
  | "construct" => some <$> constructStatement parse line
  | "pass" => return none
  | word => reject (.unexpectedKeyword word) line

/-- A statement, or nothing for a `pass`. -/
def statementRule (parse : Descent) (isParameter : Bool) : Parser (Option Statement) := do
  let token ← advance
  let line := token.line
  match token.kind with
  | .keyword => keywordStatement parse isParameter token
  | .eof => reject .unexpectedEndOfInput line
  | _ =>
    if token.isOperator Operator.controlTransfer.symbol then
      retreat
      some <$> callStatement parse line
    else if token.isPunctuation Grouping.brace.opening then
      return some ⟨.scopedBlock (← closedBlock parse "to close scoped block"), line⟩
    else
      reject (.invalidStatementStart token.text) line

end SinFrontend.Parser
