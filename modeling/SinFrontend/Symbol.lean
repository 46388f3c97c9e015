import SinFrontend.DataType.Decoration

/-!
# Symbols

A symbol is a name in a scope with a type. The three together make its key:

    key ::= "_SIN_N" (length segment)* "E@" name "@" decoration

where each segment of the scope is preceded by its length in bytes. What else is known of a symbol
(whether it is a parameter, defined, initialized, and where) may change while the text is read.
-/

namespace SinFrontend

/-- What a symbol names. -/
inductive SymbolKind where
  | variable | function | struct
  deriving DecidableEq

/-- A declared or defined entity. -/
structure Symbol where
  name : String
  /-- The names of the enclosing scopes, the outermost first. -/
  scope : List String
  type : DataType
  kind : SymbolKind
  isParameter : Bool := false
  defined : Bool := false
  initialized : Bool := false
  /-- The line of the definition, or of the declaration as long as there is no definition. -/
  line : Nat

namespace Symbol

/-- The text of a scope inside a key: each segment behind its length in bytes. -/
def scopeText (scope : List String) : String :=
  String.join (scope.map fun segment => toString segment.utf8ByteSize ++ segment)

/-- The key of a name in a scope with a type. -/
def keyOf (name : String) (scope : List String) (type : DataType) : String :=
  "_SIN_N" ++ scopeText scope ++ "E@" ++ name ++ "@" ++ type.decoration

/-- The key of a symbol. -/
def key (symbol : Symbol) : String :=
  keyOf symbol.name symbol.scope symbol.type

/-- Whether a symbol can be named from a scope: its own scope encloses that one, or is it. -/
def isAccessibleFrom (symbol : Symbol) (scope : List String) : Bool :=
  symbol.scope.isPrefixOf scope

end Symbol

end SinFrontend
