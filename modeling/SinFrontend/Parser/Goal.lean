import SinFrontend.Grouping
import SinFrontend.Parser.Basic
import SinFrontend.Statement

/-!
# What a parser is asked to read

The grammar is recursive: a type may hold an expression, an expression a type, and a statement
both and other statements. A `Goal` names each thing that a rule may ask to be read in turn, and
its index is the type of the tree that is read. A rule is a parser that receives, as a
`Descent`, the means to read such goals; the rules themselves do not call each other.
-/

namespace SinFrontend

/-- What surrounds an expression that is to be read. -/
structure Context where
  /-- Only operators that bind tighter than this continue the expression. -/
  floor : Nat := 0
  /-- The group whose closing symbol ends the expression. -/
  closing : Grouping := .paren
  /-- Whether the first operand is the whole expression. -/
  primaryOnly : Bool := false
  /-- Whether an assignment or a `:` ends the expression. -/
  stopsAtAssignment : Bool := false
  /-- Whether an opening brace ends the expression. -/
  stopsAtBrace : Bool := false

/-- The context of an operand of an operator: the same surroundings with another floor, and
operators welcome. -/
def Context.operand (context : Context) (floor : Nat) : Context :=
  { context with floor, primaryOnly := false }

/-- The context of an expression directly inside a group. -/
def Context.within (closing : Grouping) : Context :=
  { closing }

/-- What a rule may ask to be read, and what comes of it. -/
inductive Goal : Type → Type where
  /-- A type with the qualities before it. -/
  | typeName : Goal DataType
  /-- The members of a tuple type, up to its closing bracket. -/
  | members : Goal (List DataType)
  /-- An expression. -/
  | expression (context : Context) : Goal Expression
  /-- The operators that follow `left`, and their right operands, as far as they bind tighter than
  `floor`. -/
  | operations (left : Expression) (floor : Nat) (context : Context) : Goal Expression
  /-- The elements of a list behind its first one, each with the comma before it. -/
  | elements (context : Context) : Goal (List Expression)
  /-- The initializers of a construction. -/
  | initializers : Goal (List Initializer)
  /-- A statement, or nothing for a `pass`. Only a parameter may have a default value. -/
  | statement (isParameter : Bool) : Goal (Option Statement)
  /-- Statements up to a closing brace or the end of input, each with its line. -/
  | statements : Goal (List (Option Statement × Nat))
  /-- Formal parameters up to the closing parenthesis. -/
  | parameters : Goal (List Statement)

/-- The means to read goals. -/
abbrev Descent := ⦃α : Type⦄ → Goal α → Parser α

end SinFrontend
