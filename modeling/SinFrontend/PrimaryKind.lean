/-!
# Primary kinds

The outermost shape of a type. Everything else about a type is layered on it: what it contains,
its qualities, the length of an array and the name of a struct.
-/

namespace SinFrontend

/-- The outermost shape of a type. `none` stands for a type that is not known yet. -/
inductive PrimaryKind where
  | none | int | float | bool | string | char | raw
  | ptr | reference | array | struct | tuple | void
  deriving DecidableEq

namespace PrimaryKind

/-- The kind that a type name stands for. A name that is not built in names a struct. -/
def ofName : String → PrimaryKind
  | "char" => char
  | "int" => int
  | "float" => float
  | "string" => string
  | "bool" => bool
  | "void" => void
  | "ptr" => ptr
  | "ref" => reference
  | "raw" => raw
  | "array" => array
  | "tuple" => tuple
  | _ => struct

/-- The reserved words that begin a type name, and so end a list of qualities before it. The word
`ref` is not reserved. -/
def typeKeywords : List String :=
  ["int", "bool", "string", "char", "float", "raw", "ptr", "array", "struct", "tuple", "void"]

/-- Whether a word is reserved to begin a type name. -/
def isTypeKeyword (word : String) : Bool :=
  typeKeywords.contains word

/-- The letter of a kind in a decorated name; no two kinds share one. -/
def letter : PrimaryKind → Char
  | int => 'i'
  | float => 'f'
  | array => 'a'
  | bool => 'b'
  | char => 'c'
  | ptr => 'p'
  | reference => 'r'
  | string => 's'
  | struct => 'u'
  | tuple => 't'
  | void => 'v'
  | raw => 'w'
  | none => 'n'

/-- The kinds that wrap exactly one other type. -/
def hasSingleSubtype : PrimaryKind → Bool
  | ptr | reference | array | string => true
  | _ => false

/-- The kinds whose values have no width or sign of their own to choose. -/
def ignoresWidthAndSign : PrimaryKind → Bool
  | ptr | bool | array | string | raw => true
  | _ => false

/-- The kind as messages name it. -/
def word : PrimaryKind → String
  | none => "none"
  | int => "int"
  | float => "float"
  | bool => "bool"
  | string => "string"
  | char => "char"
  | raw => "raw"
  | ptr => "ptr"
  | reference => "ref"
  | array => "array"
  | struct => "struct"
  | tuple => "tuple"
  | void => "void"

end PrimaryKind

end SinFrontend
