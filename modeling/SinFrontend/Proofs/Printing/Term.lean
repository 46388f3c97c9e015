import SinFrontend.Expression
import SinFrontend.Proofs.Printing.Pattern

/-!
# Printing expressions

`Term` is the syntax of expressions made of names, literals, operators, indices, procedures and
calls. A term stands for an expression tree, and it is printed with parentheses only where the
binding strength of the operators asks for them.

* `Term.tree`: the expression that a term stands for. Its constant marks are computed from the
  leaves upwards.
* `Term.print`: the text of a term, in a `Style`.

Two habits of printing vary. The name of a call can be put in parentheses below different levels,
and assignments can be put in parentheses wherever they stand.
-/

namespace SinFrontend

/-! ## Operators and literals -/

/-- Whether an operator stands between two operands and makes a binary node of them. The arrows
    belong to statements, and `:` and `as` make nodes of their own. -/
def Operator.isInfix (op : Operator) : Bool :=
  Operator.spelled.contains op && !op.isPrefixOnly && !op.isMoveAssignment &&
    !([index, procOperator, attributeSelection, typecast].contains op)

/-- The operators that make binary nodes. -/
abbrev InfixOperator := {op : Operator // op.isInfix = true}

/-- The operators that stand in prefix position. -/
abbrev PrefixOperator := {op : Operator // op.toUnary? = some op}

/-- The kinds of literals. -/
inductive LiteralKind where
  | int | float | str | char | bool
  deriving DecidableEq

namespace LiteralKind

/-- The class of the token of a literal. -/
def token : LiteralKind → Token.Kind
  | int => .int
  | float => .float
  | str => .str
  | char => .char
  | bool => .bool

/-- The kind of the type of a literal. -/
def primary : LiteralKind → PrimaryKind
  | int => .int
  | float => .float
  | str => .string
  | char => .char
  | bool => .bool

end LiteralKind

/-! ## Terms -/

/-- The syntax of expressions. -/
inductive Term where
  | name (text : String)
  | literal (kind : LiteralKind) (text : String)
  | unary (op : PrefixOperator) (operand : Term)
  | binary (op : InfixOperator) (left right : Term)
  | indexed (target index : Term)
  | procedure (callee : Term) (args : List Term)
  | call (callee : Term) (args : List Term)

namespace Term

mutual

/-- The expression that a term stands for. -/
def tree : Term → Expression
  | name text => .identifier text false
  | literal kind text => .ofLiteral kind.primary text
  | unary op operand => .unary op operand.tree operand.tree.isConst
  | binary op left right =>
    .binary op left.tree right.tree (left.tree.isConst && right.tree.isConst)
  | indexed target index => .indexed target.tree index.tree false
  | procedure callee args => .procedure callee.tree (trees args) false
  | call callee args => .call callee.tree (trees args) false
termination_by structural term => term

/-- The expressions that terms stand for. -/
def trees : List Term → List Expression
  | [] => []
  | term :: terms => term.tree :: trees terms
termination_by structural terms => terms

end

/-- The binding strength of the outermost node. -/
def level : Term → ℕ
  | name _ | literal _ _ => 31
  | unary _ _ => 20
  | binary op _ _ => op.val.precedence
  | indexed _ _ | procedure _ _ => 25
  | call _ _ => 24

/-- Whether the outermost node is an assignment, `=` or compound. -/
def isAssignment : Term → Bool
  | binary op _ _ => op.val.isCopyAssignment
  | _ => false

end Term

/-! ## Texts -/

/-- The habits of printing that vary. -/
structure Style where
  /-- Below this level the name of a call is put in parentheses. -/
  calleeLevel : ℕ := 25
  /-- Whether assignments are put in parentheses everywhere. -/
  guarded : Bool := false

namespace Style

/-- Whether a term is put in parentheses where nodes of a least level may stand without. -/
def encloses (style : Style) (least : ℕ) (term : Term) : Bool :=
  decide (term.level < least) || style.guarded && term.isAssignment

/-- A text, in parentheses or not. -/
def parenthesized (enclosed : Bool) (text : List Pattern) : List Pattern :=
  if enclosed then .mark "(" :: (text ++ [.mark ")"]) else text

end Style

/-- Whether a text begins with a reserved word. -/
def startsWithWord (text : List Pattern) : Bool :=
  text.head?.any (·.kind == .keyword)

namespace Term

mutual

/-- The text of a term without parentheses around it. -/
def body (style : Style) : Term → List Pattern
  | name text => [.identifier text]
  | literal kind text => [{ kind := kind.token, text }]
  | unary op operand =>
    .operator op :: Style.parenthesized (style.encloses 20 operand) (body style operand)
  | binary op left right =>
    Style.parenthesized (style.encloses op.val.precedence left) (body style left) ++
      .operator op ::
        Style.parenthesized
          (style.encloses (op.val.precedence + 1) right
            || op.val == .bitAnd && startsWithWord (body style right))
          (body style right)
  | indexed target index =>
    Style.parenthesized (style.encloses 25 target) (body style target) ++
      .mark "[" ::
        (Style.parenthesized (style.encloses 0 index) (body style index) ++ [.mark "]"])
  | procedure callee args =>
    Style.parenthesized (style.encloses 25 callee) (body style callee) ++
      .mark "(" :: (first style args ++ [.mark ")"])
  | call callee args =>
    .operator .controlTransfer ::
      (Style.parenthesized (style.encloses style.calleeLevel callee) (body style callee) ++
        .mark "(" :: (first style args ++ [.mark ")"]))
termination_by structural term => term

/-- The texts of arguments with commas between them. -/
def first (style : Style) : List Term → List Pattern
  | [] => []
  | term :: terms =>
    Style.parenthesized (style.encloses 0 term) (body style term) ++ further style terms
termination_by structural terms => terms

/-- The texts of arguments with a comma before each of them. -/
def further (style : Style) : List Term → List Pattern
  | [] => []
  | term :: terms =>
    .mark "," ::
      (Style.parenthesized (style.encloses 0 term) (body style term) ++ further style terms)
termination_by structural terms => terms

end

/-- The text of a term where nodes of a least level may stand without parentheses. -/
def place (style : Style) (least : ℕ) (term : Term) : List Pattern :=
  Style.parenthesized (style.encloses least term) (term.body style)

/-- The text of a term. -/
def print (style : Style) (term : Term) : List Pattern :=
  term.place style 0

end Term

end SinFrontend
