import SinFrontend.Operator
import SinFrontend.PrimaryKind
import SinFrontend.QualitySet

/-!
# Types and expressions

Types and expressions contain each other: an array type may hold an expression for its length,
and an expression may hold the type of a literal or of a cast. They are declared together here;
the operations on them are in modules of their own.
-/

namespace SinFrontend

/-- What the `:` operator can select from a value. -/
inductive Attribute where
  | length | size | variability
  deriving DecidableEq

/-- The word of an attribute. -/
def Attribute.word : Attribute → String
  | length => "len"
  | size => "size"
  | variability => "var"

/-- The attribute that a word names. -/
def Attribute.ofWord? (word : String) : Option Attribute :=
  [length, size, variability].find? (·.word == word)

/-- The kind of a list, which its opening symbol decides. -/
inductive ListKind where
  /-- A list in parentheses. -/
  | tuple
  /-- A list in braces. -/
  | array
  deriving DecidableEq

mutual

/-- A type: its outermost kind, the types it contains, its qualities, and what is needed beyond
those to lay out an array or a struct. -/
structure DataType where
  kind : PrimaryKind
  contained : List DataType
  qualities : QualitySet
  length : ArrayLength
  structName : Option String

/-- The length of an array: left open, known, or to be computed later from an expression. -/
inductive ArrayLength where
  | unspecified
  | resolved (length : Nat)
  | deferred (length : Expression)

/-- An expression. Every node says in `constant` whether its value is known when the text is
compiled. A type name and an attribute word stand as expressions of their own until the `as` or
`:` before them takes them up; the qualities behind an attribute word wait there for the type of
the selection. -/
inductive Expression where
  | literal (type : DataType) (value : String) (constant : Bool)
  | identifier (name : String) (constant : Bool)
  | unary (op : Operator) (operand : Expression) (constant : Bool)
  | binary (op : Operator) (left right : Expression) (constant : Bool)
  | indexed (target index : Expression) (constant : Bool)
  | procedure (name : Expression) (args : List Expression) (constant : Bool)
  | call (name : Expression) (args : List Expression) (constant : Bool)
  | construction (explicitType : Option String) (initializers : List Initializer)
      (hasDefault constant : Bool)
  | list (kind : ListKind) (elements : List Expression) (qualities : QualitySet) (constant : Bool)
  | typeName (type : DataType) (constant : Bool)
  | attributeName (attr : Attribute) (qualities : QualitySet) (constant : Bool)
  | attributeSelection (selected : Expression) (attr : Attribute) (type : DataType)
      (constant : Bool)
  | typecast (operand : Expression) (target : DataType) (constant : Bool)

/-- One `member: value` pair of a construction. -/
structure Initializer where
  member : Expression
  value : Expression

end

end SinFrontend
