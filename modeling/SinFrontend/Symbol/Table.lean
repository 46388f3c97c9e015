import SinFrontend.CompileError
import SinFrontend.Symbol

/-!
# Symbol tables

A table holds symbols by their keys, and remembers which keys were inserted in each open scope.
Closing a scope removes its symbols, the most recent first. Symbols inserted while no scope is
open stay for good. No two symbols of a table share a key.
-/

namespace SinFrontend

/-- The symbols that can be named at a point of a text. -/
structure SymbolTable where
  /-- The symbols with their keys, in the order of insertion. -/
  entries : List (String × Symbol) := []
  /-- The keys inserted in each open scope: the innermost scope and the latest key first. -/
  frames : List (List String) := []

namespace SymbolTable

/-- The table without symbols and open scopes. -/
def empty : SymbolTable := {}

/-! ## Looking up -/

/-- The symbol under a key. -/
def get? (table : SymbolTable) (key : String) : Option Symbol :=
  table.entries.lookup key

/-- Whether a name in a scope with a type has a symbol. -/
def contains (table : SymbolTable) (name : String) (scope : List String) (type : DataType) :
    Bool :=
  (table.get? (Symbol.keyOf name scope type)).isSome

/-- All symbols, in the order of insertion. -/
def symbols (table : SymbolTable) : List Symbol :=
  table.entries.map (·.2)

/-- The number of symbols. -/
def size (table : SymbolTable) : Nat :=
  table.entries.length

/-- The number of open scopes. -/
def depth (table : SymbolTable) : Nat :=
  table.frames.length

/-- The first symbol of a list that no other one precedes by its line. -/
def earliest? : List Symbol → Option Symbol
  | [] => none
  | symbol :: rest =>
    match earliest? rest with
    | none => some symbol
    | some other => if other.line < symbol.line then some other else some symbol

/-- The symbol of a name that is nearest to a scope: of the innermost enclosing scope that has the
name, the symbol with the earliest line. -/
def find? (table : SymbolTable) (name : String) (scope : List String) : Option Symbol :=
  (List.range (scope.length + 1)).reverse.findSome? fun depth =>
    earliest? <| table.symbols.filter fun symbol =>
      symbol.name == name && symbol.scope == scope.take depth

/-! ## Changing -/

/-- Adds a symbol to the innermost open scope. A key that is taken is refused. -/
def insert (table : SymbolTable) (symbol : Symbol) : Except CompileError SymbolTable :=
  let key := symbol.key
  if (table.get? key).isSome then .error ⟨.duplicateSymbol symbol.name, symbol.line⟩
  else
    .ok {
      entries := table.entries ++ [(key, symbol)],
      frames := match table.frames with
        | [] => []
        | keys :: frames => (key :: keys) :: frames }

/-- Changes the symbol under a key, if there is one. -/
def modify (table : SymbolTable) (key : String) (change : Symbol → Symbol) : SymbolTable :=
  { table with
    entries := table.entries.map fun entry =>
      if entry.1 == key then (entry.1, change entry.2) else entry }

/-- Opens a scope. -/
def enterScope (table : SymbolTable) : SymbolTable :=
  { table with frames := [] :: table.frames }

/-- Closes the innermost scope, and returns its symbols in the order of their removal. -/
def exitScope (table : SymbolTable) : List Symbol × SymbolTable :=
  match table.frames with
  | [] => ([], table)
  | keys :: frames =>
    (keys.filterMap table.get?,
      { entries := table.entries.filter fun entry => !keys.contains entry.1, frames })

end SymbolTable

end SinFrontend
