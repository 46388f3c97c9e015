import SinFrontend.Tree

/-!
# Grouping symbols

The three pairs of symbols that enclose a part of an expression.
-/

namespace SinFrontend

/-- A pair of grouping symbols. -/
inductive Grouping where
  | paren | bracket | brace
  deriving DecidableEq

namespace Grouping

/-- The symbol that opens a group. -/
def opening : Grouping → String
  | paren => "("
  | bracket => "["
  | brace => "\x7b"

/-- The symbol that closes a group. -/
def closing : Grouping → String
  | paren => ")"
  | bracket => "]"
  | brace => "\x7d"

/-- The group that a symbol opens. -/
def ofOpening? (symbol : String) : Option Grouping :=
  [paren, bracket, brace].find? (·.opening == symbol)

/-- The kind of list that a group may enclose; brackets enclose none. -/
def listKind? : Grouping → Option ListKind
  | paren => some .tuple
  | brace => some .array
  | bracket => none

end Grouping

end SinFrontend
