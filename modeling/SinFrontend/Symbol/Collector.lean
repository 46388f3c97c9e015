import SinFrontend.Statement
import SinFrontend.Symbol.Table

/-!
# Collecting symbols

A collector walks over statements in their order and registers what they introduce:

* a declaration registers a symbol that is not defined; repeating it changes nothing;
* an allocation and a definition define a symbol, and complete an earlier declaration with the
  same key; defining a symbol twice is an error;
* the body of a function or struct is a scope with its name, and a scoped block or a branch is a
  scope with a number of its own;
* an assignment, a movement and a construction mark their target as initialized.

An error ends the statement in which it arises, and collection goes on behind that statement. A
function whose parameters clash still has its body collected.
-/

namespace SinFrontend

/-- What has been collected so far, and where the collector stands. -/
structure Collector where
  table : SymbolTable := .empty
  /-- The names of the open scopes, the outermost first. -/
  scope : List String := []
  /-- The number of the next scope without a name. -/
  nextAnonymous : Nat := 0
  /-- The errors so far, in order. -/
  errors : List CompileError := []

namespace Collector

/-! ## Scopes -/

/-- Opens a scope with a name. -/
def enterScope (collector : Collector) (name : String) : Collector :=
  { collector with scope := collector.scope ++ [name], table := collector.table.enterScope }

/-- Opens a scope with the next number. -/
def enterAnonymousScope (collector : Collector) : Collector :=
  { collector with nextAnonymous := collector.nextAnonymous + 1 }.enterScope
    (toString collector.nextAnonymous)

/-- Closes the innermost scope. -/
def exitScope (collector : Collector) : Collector :=
  { collector with scope := collector.scope.dropLast, table := collector.table.exitScope.2 }

/-! ## Symbols -/

/-- Records an error. -/
def report (collector : Collector) (error : CompileError) : Collector :=
  { collector with errors := collector.errors ++ [error] }

/-- Takes over a changed table, or records why it could not be changed. -/
def update (collector : Collector) (result : Except CompileError SymbolTable) : Collector :=
  match result with
  | .ok table => { collector with table }
  | .error error => collector.report error

/-- The table after a declaration. -/
def declare (table : SymbolTable) (symbol : Symbol) : Except CompileError SymbolTable :=
  if (table.get? symbol.key).isSome then .ok table else table.insert symbol

/-- The table after a definition. A declared symbol becomes defined where it stands. -/
def define (table : SymbolTable) (symbol : Symbol) : Except CompileError SymbolTable :=
  match table.get? symbol.key with
  | some existing =>
    if existing.defined then .error ⟨.duplicateSymbol symbol.name, symbol.line⟩
    else
      .ok <| table.modify symbol.key fun existing =>
        { existing with
          defined := true,
          initialized := existing.initialized || symbol.initialized,
          line := symbol.line }
  | none => table.insert { symbol with defined := true }

/-- Marks the variable that an expression names as initialized. -/
def markInitialized (collector : Collector) (target : Expression) : Collector :=
  match target with
  | .identifier name _ =>
    match collector.table.find? name collector.scope with
    | some symbol =>
      { collector with
        table := collector.table.modify symbol.key fun symbol =>
          { symbol with initialized := true } }
    | none => collector
  | _ => collector

/-- Inserts parameters up to the first that clashes, and returns the error of that one. -/
def insertParameters (scope : List String) (table : SymbolTable) :
    List Statement → SymbolTable × Option CompileError
  | [] => (table, none)
  | ⟨.declaration type name _ _ _ _, line⟩ :: rest =>
    let symbol : Symbol :=
      { name, scope, type, kind := .variable, line, isParameter := true, defined := true,
        initialized := true }
    match table.insert symbol with
    | .ok table => insertParameters scope table rest
    | .error error => (table, some error)
  | _ :: rest => insertParameters scope table rest

/-! ## Statements -/

/-- The kind of symbol that a declaration announces. -/
def declaredKind (isFunction isStruct : Bool) : SymbolKind :=
  if isStruct then .struct else if isFunction then .function else .variable

mutual

/-- Collects a statement. -/
def visit (collector : Collector) : Statement → Collector
  | ⟨form, line⟩ => collector.visitForm line form
termination_by structural statement => statement

/-- Collects a form that starts on a line. -/
def visitForm (collector : Collector) (line : Nat) : Form → Collector
  | .declaration type name value isFunction isStruct _ =>
    collector.update <| declare collector.table
      { name, scope := collector.scope, type, kind := declaredKind isFunction isStruct, line,
        initialized := value.isSome }
  | .allocation type name value =>
    collector.update <| define collector.table
      { name, scope := collector.scope, type, kind := .variable, line,
        initialized := value.isSome }
  | .functionDefinition name returnType params body =>
    match define collector.table
      { name, scope := collector.scope, type := returnType, kind := .function, line,
        initialized := true } with
    | .error error => collector.report error
    | .ok table =>
      let inside := { collector with table }.enterScope name
      let (table, clash) := insertParameters inside.scope inside.table params
      let outside := ({ inside with table }.collect body).exitScope
      match clash with
      | some error => outside.report error
      | none => outside
  | .structDefinition name body =>
    match define collector.table
      { name, scope := collector.scope, type := .structNamed name .empty, kind := .struct,
        line } with
    | .error error => collector.report error
    | .ok table => (({ collector with table }.enterScope name).collect body).exitScope
  | .scopedBlock block => (collector.enterAnonymousScope.collect block).exitScope
  | .ifThen _ branch => collector.visitBranch branch
  | .ifElse _ branch otherwise => (collector.visitBranch branch).visitBranch otherwise
  | .whileLoop _ branch => collector.visitBranch branch
  | .assignment target _ => collector.markInitialized target
  | .compoundAssignment target _ _ => collector.markInitialized target
  | .movement destination _ => collector.markInitialized destination
  | .construction target _ => collector.markInitialized target
  | .includeFile _ | .returnValue _ | .call _ => collector
termination_by structural form => form

/-- Collects a branch, which is a scope of its own. A block that is a branch opens no second
one. -/
def visitBranch (collector : Collector) : Statement → Collector
  | ⟨form, line⟩ =>
    let inside := collector.enterAnonymousScope
    let after := match form with
      | .scopedBlock block => inside.collect block
      | form => inside.visitForm line form
    after.exitScope
termination_by structural statement => statement

/-- Collects the statements of a block in the open scope. -/
def collect (collector : Collector) : Block → Collector
  | ⟨statements, _⟩ => collector.visitAll statements
termination_by structural block => block

/-- Collects statements one after the other. -/
def visitAll (collector : Collector) : List Statement → Collector
  | [] => collector
  | statement :: rest => (collector.visit statement).visitAll rest
termination_by structural statements => statements

end

end Collector

end SinFrontend
