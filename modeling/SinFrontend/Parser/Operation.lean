import SinFrontend.Parser.QualityList
import SinFrontend.Parser.Goal

/-!
# Reading operations

What follows an operand: binary operators with their right operands, arguments, and indices. An
operator is taken if it binds tighter than the floor. Its right operand takes with it whatever
binds tighter still, and the result becomes the left operand of what comes next on the same floor,
so that operators of one precedence group to the left.

`combine` makes the node of an operator: `:` selects an attribute and `as` casts to a type, each
from the word that was read as its right operand.
-/

namespace SinFrontend.Parser

/-! ## Nodes -/

/-- The type of a selected attribute before qualities are layered on it. -/
def attributeType : DataType :=
  .ofKind .int { unsigned := true, final := true }

/-- The node of a binary operator that was read on a line. -/
def combine (op : Operator) (left right : Expression) (line : Nat) : Parser Expression :=
  let constant := left.isConst && right.isConst
  match op, right with
  | .attributeSelection, .attributeName attr qualities _ =>
    match attributeType.addQualities qualities with
    | (type, none) => return .attributeSelection left attr type constant
    | (_, some conflict) => rejectConflict conflict line
  | .typecast, .typeName target _ => return .typecast left target left.isConst
  | .attributeSelection, _ | .typecast, _ => reject (.illegalExpression "Illegal expression") line
  | _, _ => return .binary op left right constant

/-! ## Right operands -/

/-- The index behind an opening bracket, and the closing bracket. -/
def index (parse : Descent) (target : Expression) : Parser Expression := do
  let index ← parse (.expression (.within .bracket))
  expectPunctuation Grouping.bracket.closing "to close index expression"
  return .indexed target index false

/-- The arguments of a procedure, read as one group from the opening parenthesis on. A group that
is no list is a single argument. -/
def arguments (parse : Descent) (name : Expression) (context : Context) : Parser Expression := do
  let args ← parse (.expression { context.operand 0 with primaryOnly := true })
  match args with
  | .list _ elements _ _ => return .procedure name elements false
  | argument => return .procedure name [argument] false

/-- An operator with its right operand, the operator being next. -/
def operation (parse : Descent) (left : Expression) (op : Operator) (context : Context) :
    Parser Expression := do
  match op with
  | .index =>
    move Cursor.advance
    index parse left
  | .procOperator => arguments parse left context
  | _ =>
    let line ← currentLine
    move Cursor.advance
    let right ← parse (.expression (context.operand op.precedence))
    let right ← parse (.operations right op.precedence context)
    combine op left right line

/-! ## Operations -/

/-- Whether a token ends an expression in a context. -/
def endsExpression (context : Context) (next : Token) : Bool :=
  next.kind == .eof || next.isPunctuation ";" || next.isPunctuation ","
    || next.isPunctuation context.closing.closing
    || context.stopsAtBrace && next.isPunctuation Grouping.brace.opening

/-- Whether an operator is left to the statement around the expression. -/
def isLeftToStatement (context : Context) (op : Operator) : Bool :=
  op.isMoveAssignment
    || context.stopsAtAssignment && (op.isCopyAssignment || op == .attributeSelection)

/-- The operations behind an operand. -/
def operationsRule (parse : Descent) (left : Expression) (floor : Nat) (context : Context) :
    Parser Expression := do
  let next ← peek
  if endsExpression context next then
    return left
  else
    match next.operator? with
    | none => reject (.invalidToken next.text) next.line
    | some op =>
      if isLeftToStatement context op then
        return left
      else if op == .bitAnd && (← keywordFollows) then
        return left
      else if op.isPrefixOnly then
        reject (.invalidBinaryOperator next.text) next.line
      else if op.precedence ≤ floor then
        return left
      else
        let combined ← operation parse left op context
        parse (.operations combined floor context)

end SinFrontend.Parser
