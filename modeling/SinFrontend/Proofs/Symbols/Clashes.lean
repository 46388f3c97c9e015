import SinFrontend.Proofs.Names
import SinFrontend.Proofs.Symbols.Layer

/-!
# Duplicate definitions are what the collector reports

A scope instance is the text of all programs outside of any body, the body of a function with its
parameters, the body of a struct, a scoped block, or a branch. The collector reports an error
exactly if some scope instance defines a signature twice, whatever other scopes define.

* `Statement.definition?`, `Form.scopes`: what a statement defines where it stands, and what is
  defined in each scope instance inside it.
* `Collector.Adds`: a step of the collector reports nothing exactly if the signatures it meets are
  admitted, and then it has defined them.
* `adds_visit`: visiting a statement is such a step, by induction over statements and blocks.
* `errors_eq_nil_iff`: collecting programs reports nothing exactly if no scope instance defines a
  signature twice.
-/

namespace SinFrontend

/-! ## What is defined in a scope instance -/

namespace Statement

/-- The signature that a statement defines in the scope in which it stands. -/
def definition? : Statement → Option Signature
  | ⟨.allocation type name _, _⟩ => some (name, type.decoration)
  | ⟨.functionDefinition name returnType _ _, _⟩ => some (name, returnType.decoration)
  | ⟨.structDefinition name _, _⟩ => some (name, (DataType.structNamed name .empty).decoration)
  | _ => none

/-- The signature of a parameter. -/
def parameter? : Statement → Option Signature
  | ⟨.declaration type name _ _ _ _, _⟩ => some (name, type.decoration)
  | _ => none

/-- The statements that stand directly in the scope of a branch. -/
def inBranch : Statement → List Statement
  | ⟨.scopedBlock block, _⟩ => block.statements
  | statement => [statement]

end Statement

/-- The signatures that are defined directly in a block. -/
def Block.definitions (block : Block) : List Signature :=
  block.statements.filterMap Statement.definition?

mutual

/-- What is defined in each scope instance inside a statement. -/
def Statement.scopes : Statement → List (List Signature)
  | ⟨form, _⟩ => form.scopes
termination_by structural statement => statement

/-- What is defined in each scope instance inside a form. -/
def Form.scopes : Form → List (List Signature)
  | .functionDefinition _ _ params body =>
    (params.filterMap Statement.parameter? ++ body.definitions) :: body.scopes
  | .structDefinition _ body | .scopedBlock body => body.definitions :: body.scopes
  | .ifThen _ branch | .whileLoop _ branch => branch.scopesOfBranch
  | .ifElse _ branch otherwise => branch.scopesOfBranch ++ otherwise.scopesOfBranch
  | _ => []
termination_by structural form => form

/-- What is defined in the scope instance of a branch, and in those inside. -/
def Statement.scopesOfBranch : Statement → List (List Signature)
  | ⟨form, line⟩ =>
    match form with
    | .scopedBlock block => block.definitions :: block.scopes
    | form => (Statement.definition? ⟨form, line⟩).toList :: form.scopes
termination_by structural statement => statement

/-- What is defined in each scope instance inside a block. -/
def Block.scopes : Block → List (List Signature)
  | ⟨statements, _⟩ => Statement.scopesOfAll statements
termination_by structural block => block

/-- What is defined in each scope instance inside statements. -/
def Statement.scopesOfAll : List Statement → List (List Signature)
  | [] => []
  | statement :: rest => statement.scopes ++ Statement.scopesOfAll rest
termination_by structural statements => statements

end

namespace Collector

/-! ## Steps of a collector -/

/-- A step from one collector to another that meets definitions: those in `here` directly in the
    innermost scope, and those of each of `scopes` in a scope instance of its own. It reports
    nothing exactly if the former are admitted and none of the latter has a duplicate. -/
def Adds (here : List Signature) (scopes : List (List Signature)) (before after : Collector) :
    Prop :=
  ∀ ⦃outer : List Mark⦄ ⦃layer : Layer⦄ ⦃frames : Option (List (List String))⦄,
    before.table.Layered before.scope outer layer frames →
      after.scope = before.scope ∧
        ∃ (layer' : Layer) (errors : List CompileError),
          after.table.Layered before.scope outer layer' frames ∧
            after.errors = before.errors ++ errors ∧
            (errors = [] ↔ layer.Admits here ∧ ∀ scope ∈ scopes, scope.Nodup) ∧
            (errors = [] → ∀ signature,
              layer'.Defines signature ↔ layer.Defines signature ∨ signature ∈ here)

variable {c middle after : Collector} {here there : List Signature}
  {scopes others : List (List Signature)}

theorem Adds.refl (c : Collector) : Adds [] [] c c := fun _ layer _ h =>
  ⟨rfl, layer, [], h, (List.append_nil _).symm, iff_of_true rfl ⟨layer.admits_nil, nofun⟩,
    fun _ _ => by simp⟩

theorem Adds.trans (h : Adds here scopes c middle) (h' : Adds there others middle after) :
    Adds (here ++ there) (scopes ++ others) c after := by
  intro outer layer frames hlayered
  obtain ⟨hscope, layer₁, errors₁, hlayered₁, herrors₁, hclean₁, hdefines₁⟩ := h hlayered
  rw [← hscope] at hlayered₁
  obtain ⟨hscope₂, layer₂, errors₂, hlayered₂, herrors₂, hclean₂, hdefines₂⟩ := h' hlayered₁
  rw [hscope] at hlayered₂
  refine ⟨hscope₂.trans hscope, layer₂, errors₁ ++ errors₂, hlayered₂, ?_, ?_, ?_⟩
  · rw [herrors₂, herrors₁, List.append_assoc]
  · rw [List.append_eq_nil_iff, List.forall_mem_append]
    constructor
    · rintro ⟨hnone₁, hnone₂⟩
      obtain ⟨hhere, hscopes⟩ := hclean₁.mp hnone₁
      obtain ⟨hthere, hothers⟩ := hclean₂.mp hnone₂
      exact ⟨(Layer.admits_append (hdefines₁ hnone₁)).mpr ⟨hhere, hthere⟩, hscopes, hothers⟩
    · rintro ⟨hadmits, hscopes, hothers⟩
      have hhere : layer.Admits here :=
        ⟨(List.nodup_append.mp hadmits.1).1, fun signature hmem =>
          hadmits.2 signature (List.mem_append_left _ hmem)⟩
      have hnone₁ := hclean₁.mpr ⟨hhere, hscopes⟩
      have hthere := ((Layer.admits_append (hdefines₁ hnone₁)).mp hadmits).2
      exact ⟨hnone₁, hclean₂.mpr ⟨hthere, hothers⟩⟩
  · intro hnone signature
    obtain ⟨hnone₁, hnone₂⟩ := List.append_eq_nil_iff.mp hnone
    rw [hdefines₂ hnone₂, hdefines₁ hnone₁, List.mem_append, or_assoc]

/-- A step inside a scope that is opened before it and closed behind it. -/
theorem Adds.scoped {name : String} (h : Adds here scopes (c.enterScope name) after) :
    Adds [] (here :: scopes) c after.exitScope := by
  intro outer layer frames hlayered
  obtain ⟨hscope, inside, errors, hinside, herrors, hclean, -⟩ := h (hlayered.enterScope name)
  refine ⟨?_, layer, errors, hlayered.exitScope hinside, herrors, ?_, fun _ _ => by simp⟩
  · show after.scope.dropLast = _
    rw [hscope]
    exact List.dropLast_concat
  · rw [hclean, Layer.nil_admits_iff, List.forall_mem_cons]
    exact (and_iff_right layer.admits_nil).symm

/-! ## Symbols -/

variable {symbol : Symbol}

theorem adds_declare (hscope : symbol.scope = c.scope) (hname : IsIdentifier symbol.name)
    (hundefined : symbol.defined = false) : Adds [] [] c (c.update (declare c.table symbol)) := by
  intro outer layer frames hlayered
  obtain ⟨table, layer', hdeclare, hlayered', hdefines⟩ := hlayered.declare hscope hname hundefined
  rw [hdeclare]
  exact ⟨rfl, layer', [], hlayered', (List.append_nil _).symm,
    iff_of_true rfl ⟨layer.admits_nil, nofun⟩, fun _ signature => by simp [hdefines]⟩

/-- A refused definition leaves everything but an error as it is. -/
theorem adds_report (error : CompileError) {layer : Layer} {outer : List Mark}
    {frames : Option (List (List String))} (h : c.table.Layered c.scope outer layer frames)
    (hrefused : ¬ (layer.Admits here ∧ ∀ scope ∈ scopes, scope.Nodup)) :
    (c.report error).scope = c.scope ∧
      ∃ (layer' : Layer) (errors : List CompileError),
        (c.report error).table.Layered c.scope outer layer' frames ∧
          (c.report error).errors = c.errors ++ errors ∧
          (errors = [] ↔ layer.Admits here ∧ ∀ scope ∈ scopes, scope.Nodup) ∧
          (errors = [] → ∀ signature,
            layer'.Defines signature ↔ layer.Defines signature ∨ signature ∈ here) :=
  ⟨rfl, layer, [error], h, rfl, iff_of_false (List.cons_ne_nil _ _) hrefused,
    fun hnone => absurd hnone (List.cons_ne_nil _ _)⟩

theorem adds_define (hscope : symbol.scope = c.scope) (hname : IsIdentifier symbol.name) :
    Adds [symbol.signature] [] c (c.update (define c.table symbol)) := by
  intro outer layer frames hlayered
  by_cases hdefined : layer.Defines symbol.signature
  · rw [hlayered.define_of_defined hscope hname hdefined]
    exact adds_report _ hlayered fun h => Layer.admits_singleton.mp h.1 hdefined
  · obtain ⟨table, layer', hdefine, hlayered', hdefines⟩ :=
      hlayered.define_of_not_defined hscope hname hdefined
    rw [hdefine]
    exact ⟨rfl, layer', [], hlayered', (List.append_nil _).symm,
      iff_of_true rfl ⟨Layer.admits_singleton.mpr hdefined, nofun⟩,
      fun _ signature => by rw [hdefines, List.mem_singleton]⟩

theorem adds_markInitialized (c : Collector) (target : Expression) :
    Adds [] [] c (c.markInitialized target) := by
  unfold markInitialized
  split
  · split
    next symbol _ =>
      intro outer layer frames hlayered
      have hmodify : (c.table.modify symbol.key fun symbol =>
          { symbol with initialized := true }).Layered c.scope outer layer frames :=
        hlayered.modify symbol.key fun _ => rfl
      exact ⟨rfl, layer, [], hmodify, (List.append_nil _).symm,
        iff_of_true rfl ⟨layer.admits_nil, nofun⟩, fun _ _ => by simp⟩
    next => exact .refl c
  · exact .refl c

/-! ## Functions -/

/-- The parameters of a function are inserted without a clash exactly if they are admitted. -/
theorem layered_insertParameters {table : SymbolTable} {scope : List String} {outer : List Mark}
    {layer : Layer} {frames : Option (List (List String))}
    (h : table.Layered scope outer layer frames) (hall : ∀ entry ∈ layer, entry.2 = true)
    {params : List Statement} (hnamed : ∀ param ∈ params, param.Named) :
    ∃ layer' : Layer, (insertParameters scope table params).1.Layered scope outer layer' frames ∧
      ((insertParameters scope table params).2 = none ↔
        layer.Admits (params.filterMap Statement.parameter?)) ∧
      ((insertParameters scope table params).2 = none → ∀ signature,
        layer'.Defines signature ↔
          layer.Defines signature ∨ signature ∈ params.filterMap Statement.parameter?) := by
  induction params generalizing table layer with
  | nil => exact ⟨layer, h, iff_of_true rfl layer.admits_nil, fun _ _ => by simp⟩
  | cons param rest ih =>
    rw [List.forall_mem_cons] at hnamed
    obtain ⟨form, line⟩ := param
    cases form with
    | declaration type name value isFunction isStruct params =>
      have hname : IsIdentifier name := (Statement.named_declaration.mp hnamed.1).1
      let symbol : Symbol :=
        { name, scope, type, kind := .variable, line, isParameter := true, defined := true,
          initialized := true }
      have hsigs : List.filterMap Statement.parameter? (⟨.declaration type name value isFunction
          isStruct params, line⟩ :: rest) =
          [symbol.signature] ++ rest.filterMap Statement.parameter? := rfl
      rw [hsigs, insertParameters]
      cases hlookup : layer.lookup symbol.signature with
      | some defined =>
        have hdefined : layer.Defines symbol.signature := by
          obtain ⟨before, behind, hsplit, -⟩ := List.lookup_eq_some_iff.mp hlookup
          have htrue : defined = true := hall (symbol.signature, defined) (by simp [hsplit])
          rw [Layer.Defines, hlookup, htrue]
        rw [show table.insert symbol = _ from
          h.insert_of_taken rfl hname (by rw [hlookup]; rfl)]
        refine ⟨layer, h, iff_of_false (by simp) fun hadmits => ?_, fun hnone => by simp at hnone⟩
        exact hadmits.2 symbol.signature (List.mem_append_left _ (List.mem_singleton_self _)) hdefined
      | none =>
        obtain ⟨table', hinsert, hlayered⟩ : ∃ table', table.insert symbol = .ok table' ∧
            table'.Layered scope outer (layer ++ [(symbol.signature, symbol.defined)]) frames :=
          h.insert_of_free rfl hname hlookup
        rw [hinsert]
        have hall' : ∀ entry ∈ layer ++ [(symbol.signature, symbol.defined)], entry.2 = true := by
          rw [List.forall_mem_append, List.forall_mem_singleton]
          exact ⟨hall, rfl⟩
        have hdefines : ∀ other, Layer.Defines (layer ++ [(symbol.signature, symbol.defined)]) other ↔
            layer.Defines other ∨ other ∈ [symbol.signature] := fun other => by
          rw [Layer.defines_append_singleton hlookup, List.mem_singleton]
          exact or_congr_right (and_iff_left rfl)
        obtain ⟨layer', hlayered', hclash, hdefines'⟩ := ih hlayered hall' hnamed.2
        refine ⟨layer', hlayered', ?_, fun hnone other => ?_⟩
        · have hfree : layer.Admits [symbol.signature] := by
            rw [Layer.admits_singleton, Layer.Defines, hlookup]
            simp
          rw [hclash, Layer.admits_append hdefines]
          exact (and_iff_right hfree).symm
        · rw [hdefines' hnone, hdefines, List.mem_append, or_assoc]
    | _ => exact ih h hall hnamed.2

/-- The body of a function is a scope instance together with the parameters. -/
theorem adds_functionBody {params : List Statement} {body : Block} (name : String)
    (hparams : ∀ param ∈ params, param.Named)
    (hbody : ∀ c : Collector, Adds body.definitions body.scopes c (c.collect body))
    (c : Collector) :
    Adds [] ((params.filterMap Statement.parameter? ++ body.definitions) :: body.scopes) c
      (match insertParameters (c.scope ++ [name]) c.table.enterScope params with
       | (table, clash) =>
         let outside := ({ c.enterScope name with table }.collect body).exitScope
         match clash with
         | some error => outside.report error
         | none => outside) := by
  intro outer layer frames hlayered
  obtain ⟨inside, hinside, hclash, hdefines⟩ :=
    layered_insertParameters (hlayered.enterScope name) nofun hparams
  generalize insertParameters (c.scope ++ [name]) c.table.enterScope params = result
    at hinside hclash hdefines ⊢
  obtain ⟨table, clash⟩ := result
  obtain ⟨hscope, behind, errors, hbehind, herrors, hclean, -⟩ :=
    hbody { c.enterScope name with table } hinside
  -- the body is collected whether or not the parameters clash
  let outside : Collector := ({ c.enterScope name with table }.collect body).exitScope
  have hscope' : outside.scope = c.scope := by
    show (({ c.enterScope name with table } : Collector).collect body).scope.dropLast = _
    rw [hscope]
    exact List.dropLast_concat
  have hexit : outside.table.Layered c.scope outer layer frames := hlayered.exitScope hbehind
  have herrors' : outside.errors = c.errors ++ errors := herrors
  have hgood : clash = none →
      (errors = [] ↔ (params.filterMap Statement.parameter? ++ body.definitions).Nodup ∧
        ∀ scope ∈ body.scopes, scope.Nodup) := by
    intro hnone
    rw [hclean, ← Layer.nil_admits_iff, Layer.admits_append (hdefines hnone)]
    rw [and_iff_right (hclash.mp hnone)]
  cases clash with
  | none =>
    refine ⟨hscope', layer, errors, hexit, herrors', ?_, fun _ _ => by simp⟩
    rw [hgood rfl, List.forall_mem_cons, and_iff_right layer.admits_nil]
  | some error =>
    refine ⟨hscope', layer, errors ++ [error], hexit, ?_, iff_of_false (by simp) ?_,
      fun hnone => by simp at hnone⟩
    · show outside.errors ++ [error] = _
      rw [herrors', List.append_assoc]
    · rintro ⟨-, hscopes⟩
      have hboth := (List.forall_mem_cons.mp hscopes).1
      have hnone := hclash.mpr (Layer.nil_admits_iff.mpr (List.nodup_append.mp hboth).1)
      cases hnone

/-- What follows a definition is left out if the definition is refused. -/
theorem adds_define_then (c : Collector) (symbol : Symbol) (hscope : symbol.scope = c.scope)
    (hname : IsIdentifier symbol.name) {next : Collector → Collector} (hnext : ∀ c, Adds [] scopes c (next c)) :
    Adds [symbol.signature] scopes c
      (match define c.table symbol with
       | .error error => c.report error
       | .ok table => next { c with table }) := by
  intro outer layer frames hlayered
  by_cases hdefined : layer.Defines symbol.signature
  · rw [hlayered.define_of_defined hscope hname hdefined]
    exact adds_report _ hlayered fun h => Layer.admits_singleton.mp h.1 hdefined
  · have hboth := (adds_define hscope hname).trans (hnext _) hlayered
    obtain ⟨table, layer', hdefine, -⟩ := hlayered.define_of_not_defined hscope hname hdefined
    rw [hdefine] at hboth ⊢
    exact hboth

/-! ## Statements -/

mutual

/-- Visiting a statement is a step that meets what it defines and what is defined inside. -/
theorem adds_visit (c : Collector) : ∀ {statement : Statement}, statement.Named →
    Adds statement.definition?.toList statement.scopes c (c.visit statement)
  | ⟨form, line⟩, hnamed => by
    rw [visit]
    exact adds_visitForm c line hnamed

theorem adds_visitForm (c : Collector) (line : ℕ) : ∀ {form : Form},
    Statement.Named ⟨form, line⟩ →
    Adds (Statement.definition? ⟨form, line⟩).toList form.scopes c (c.visitForm line form)
  | .declaration .., hnamed => by
    rw [visitForm]
    exact adds_declare rfl (Statement.named_declaration.mp hnamed).1 rfl
  | .allocation .., hnamed => by
    rw [visitForm]
    exact adds_define rfl (List.forall_mem_singleton.mp hnamed)
  | .functionDefinition name returnType params body, hnamed => by
    obtain ⟨hname, hparams, hbody⟩ := Statement.named_functionDefinition.mp hnamed
    let symbol : Symbol :=
      { name, scope := c.scope, type := returnType, kind := .function, line, initialized := true }
    rw [visitForm]
    exact adds_define_then c symbol rfl hname
      (adds_functionBody name hparams fun c => adds_collect c hbody)
  | .structDefinition name body, hnamed => by
    obtain ⟨hname, hbody⟩ := List.forall_mem_cons.mp hnamed
    let symbol : Symbol :=
      { name, scope := c.scope, type := .structNamed name .empty, kind := .struct, line }
    rw [visitForm]
    exact adds_define_then c symbol rfl hname fun c =>
      (adds_collect (c.enterScope name) hbody).scoped
  | .scopedBlock block, hnamed => by
    rw [visitForm]
    exact (adds_collect c.enterAnonymousScope hnamed).scoped
  | .ifThen _ branch, hnamed => by
    rw [visitForm]
    exact adds_visitBranch c hnamed
  | .ifElse _ branch otherwise, hnamed => by
    obtain ⟨hbranch, hotherwise⟩ := Statement.named_ifElse.mp hnamed
    rw [visitForm]
    exact (adds_visitBranch c hbranch).trans (adds_visitBranch _ hotherwise)
  | .whileLoop _ branch, hnamed => by
    rw [visitForm]
    exact adds_visitBranch c hnamed
  | .assignment target _, _ => by
    rw [visitForm]
    exact adds_markInitialized c target
  | .compoundAssignment target _ _, _ => by
    rw [visitForm]
    exact adds_markInitialized c target
  | .movement destination _, _ => by
    rw [visitForm]
    exact adds_markInitialized c destination
  | .construction target _, _ => by
    rw [visitForm]
    exact adds_markInitialized c target
  | .includeFile _, _ | .returnValue _, _ | .call _, _ => by
    rw [visitForm]
    exact .refl c

/-- A branch is a scope instance of its own, and a block that is a branch opens no second one. -/
theorem adds_visitBranch (c : Collector) : ∀ {branch : Statement}, branch.Named →
    Adds [] branch.scopesOfBranch c (c.visitBranch branch)
  | ⟨.scopedBlock _, _⟩, hnamed => (adds_collect c.enterAnonymousScope hnamed).scoped
  | ⟨.declaration .., line⟩, hnamed | ⟨.allocation .., line⟩, hnamed
  | ⟨.functionDefinition .., line⟩, hnamed | ⟨.structDefinition .., line⟩, hnamed
  | ⟨.ifThen .., line⟩, hnamed | ⟨.ifElse .., line⟩, hnamed | ⟨.whileLoop .., line⟩, hnamed
  | ⟨.assignment .., line⟩, hnamed | ⟨.compoundAssignment .., line⟩, hnamed
  | ⟨.movement .., line⟩, hnamed | ⟨.construction .., line⟩, hnamed
  | ⟨.includeFile .., line⟩, hnamed | ⟨.returnValue .., line⟩, hnamed
  | ⟨.call .., line⟩, hnamed => (adds_visitForm c.enterAnonymousScope line hnamed).scoped

/-- Collecting a block is a step that meets what is defined directly in it and what is inside. -/
theorem adds_collect (c : Collector) : ∀ {block : Block}, block.Named →
    Adds block.definitions block.scopes c (c.collect block)
  | ⟨statements, _⟩, hnamed => by
    rw [collect]
    exact adds_visitAll c (Statement.forall_namesOfAll_iff.mp hnamed)

theorem adds_visitAll (c : Collector) : ∀ {statements : List Statement},
    (∀ statement ∈ statements, statement.Named) →
    Adds (statements.filterMap Statement.definition?) (Statement.scopesOfAll statements) c
      (c.visitAll statements)
  | [], _ => .refl c
  | statement :: rest, hnamed => by
    rw [List.forall_mem_cons] at hnamed
    have hdefinitions : (statement :: rest).filterMap Statement.definition? =
        statement.definition?.toList ++ rest.filterMap Statement.definition? := by
      rw [List.filterMap_cons]
      cases statement.definition? <;> rfl
    rw [visitAll, hdefinitions]
    exact (adds_visit c hnamed.1).trans (adds_visitAll (c.visit statement) hnamed.2)

end

/-! ## Programs -/

/-- Collecting one block after the other meets what each of them defines. -/
theorem adds_foldl {programs : List Block} (hnamed : ∀ program ∈ programs, program.Named) :
    ∀ c, Adds (programs.flatMap Block.definitions) (programs.flatMap Block.scopes) c
      (programs.foldl collect c) := by
  induction programs with
  | nil => exact .refl
  | cons program rest ih =>
    intro c
    rw [List.forall_mem_cons] at hnamed
    exact (adds_collect c hnamed.1).trans (ih hnamed.2 (c.collect program))

theorem layered_empty : SymbolTable.empty.Layered [] [] [] none :=
  ⟨rfl, nofun, nofun, List.nodup_nil, rfl⟩

/-! ## States that a collector passes through -/

/-- The scopes that a statement opens directly, each with the collector when it is opened and with
    the collector and the statements when they are visited. -/
def opened (c : Collector) : Statement → List (Collector × Collector × List Statement)
  | ⟨.functionDefinition name returnType params body, line⟩ =>
    match define c.table
      { name, scope := c.scope, type := returnType, kind := .function, line,
        initialized := true } with
    | .error _ => []
    | .ok table =>
      let inside := { c with table }.enterScope name
      [(inside, { inside with table := (insertParameters inside.scope inside.table params).1 },
        body.statements)]
  | ⟨.structDefinition name body, line⟩ =>
    match define c.table
      { name, scope := c.scope, type := .structNamed name .empty, kind := .struct, line } with
    | .error _ => []
    | .ok table =>
      let inside := { c with table }.enterScope name
      [(inside, inside, body.statements)]
  | ⟨.scopedBlock block, _⟩ =>
    [(c.enterAnonymousScope, c.enterAnonymousScope, block.statements)]
  | ⟨.ifThen _ branch, _⟩ | ⟨.whileLoop _ branch, _⟩ =>
    [(c.enterAnonymousScope, c.enterAnonymousScope, branch.inBranch)]
  | ⟨.ifElse _ branch otherwise, _⟩ =>
    let between := c.visitBranch branch
    [(c.enterAnonymousScope, c.enterAnonymousScope, branch.inBranch),
      (between.enterAnonymousScope, between.enterAnonymousScope, otherwise.inBranch)]
  | _ => []

/-- Visiting statements one after the other passes through a collector: before or behind one of
    them, where one of them opens a scope, or among the statements of that scope. -/
inductive Passes : Collector → List Statement → Collector → Prop where
  | here {c : Collector} {statements : List Statement} : Passes c statements c
  | later {c reached : Collector} {statement : Statement} {rest : List Statement} :
    Passes (c.visit statement) rest reached → Passes c (statement :: rest) reached
  | opening {c inside first : Collector} {statement : Statement} {rest body : List Statement} :
    (inside, first, body) ∈ c.opened statement → Passes c (statement :: rest) inside
  | inside {c inside first reached : Collector} {statement : Statement} {rest body : List Statement} :
    (inside, first, body) ∈ c.opened statement → Passes first body reached →
      Passes c (statement :: rest) reached

variable {inside first reached : Collector} {statement : Statement} {statements body : List Statement}

theorem named_inBranch {branch : Statement} (h : branch.Named) :
    ∀ statement ∈ branch.inBranch, statement.Named := by
  obtain ⟨form, line⟩ := branch
  cases form with
  | scopedBlock block => exact Block.named_iff.mp h
  | _ => exact List.forall_mem_singleton.mpr h

/-- The table of a collector is layered, seen from the scope where the collector stands. -/
def Steady (c : Collector) : Prop :=
  ∃ (outer : List Mark) (layer : Layer) (frames : Option (List (List String))),
    c.table.Layered c.scope outer layer frames

theorem Adds.steady (h : Adds here scopes c after) (hc : c.Steady) : after.Steady := by
  obtain ⟨outer, layer, frames, hlayered⟩ := hc
  obtain ⟨hscope, layer', errors, hlayered', -⟩ := h hlayered
  rw [← hscope] at hlayered'
  exact ⟨outer, layer', frames, hlayered'⟩

theorem Steady.enterScope (h : c.Steady) (name : String) : (c.enterScope name).Steady := by
  obtain ⟨outer, layer, frames, hlayered⟩ := h
  exact ⟨_, _, _, hlayered.enterScope name⟩

theorem Steady.define (h : c.Steady) (hscope : symbol.scope = c.scope)
    (hname : IsIdentifier symbol.name) {table : SymbolTable}
    (hdefine : define c.table symbol = .ok table) : Steady { c with table } := by
  have hupdate := (adds_define hscope hname).steady h
  rw [hdefine] at hupdate
  exact hupdate

theorem Steady.insertParameters (h : c.Steady) (name : String) {params : List Statement}
    (hparams : ∀ param ∈ params, param.Named) :
    Steady { c.enterScope name with
      table := (insertParameters (c.enterScope name).scope (c.enterScope name).table params).1 } := by
  obtain ⟨outer, layer, frames, hlayered⟩ := h
  obtain ⟨inside, hinside, -⟩ := layered_insertParameters (hlayered.enterScope name) nofun hparams
  exact ⟨_, _, _, hinside⟩

/-- A scope has been entered from a steady collector, and parameters are inserted in front of its
    statements. Only the body of a function has some. -/
def Entered (inside first : Collector) (body : List Statement) : Prop :=
  ∃ (outside : Collector) (name : String) (params : List Statement), outside.Steady ∧
    inside = outside.enterScope name ∧
    first = { inside with
      table := (Collector.insertParameters inside.scope inside.table params).1 } ∧
    (∀ param ∈ params, param.Named) ∧ ∀ statement ∈ body, statement.Named

theorem entered_branch (h : c.Steady) {branch : Statement} (hnamed : branch.Named) :
    Entered c.enterAnonymousScope c.enterAnonymousScope branch.inBranch :=
  -- its name is the next number
  ⟨{ c with nextAnonymous := c.nextAnonymous + 1 }, _, [], h, rfl, rfl, List.forall_mem_nil _,
    named_inBranch hnamed⟩

/-- Every scope that a statement opens has been entered so. -/
theorem entered_of_opened (h : c.Steady) (hnamed : statement.Named)
    (hopened : (inside, first, body) ∈ c.opened statement) : Entered inside first body := by
  obtain ⟨form, line⟩ := statement
  cases form with
  | functionDefinition name returnType params block =>
    obtain ⟨hname, hparams, hblock⟩ := Statement.named_functionDefinition.mp hnamed
    dsimp only [opened] at hopened
    split at hopened
    · cases hopened
    next table hdefine =>
      cases List.mem_singleton.mp hopened
      exact ⟨{ c with table }, name, params, h.define rfl hname hdefine, rfl, rfl, hparams,
        Block.named_iff.mp hblock⟩
  | structDefinition name block =>
    obtain ⟨hname, hblock⟩ := List.forall_mem_cons.mp hnamed
    dsimp only [opened] at hopened
    split at hopened
    · cases hopened
    next table hdefine =>
      cases List.mem_singleton.mp hopened
      exact ⟨{ c with table }, name, [], h.define rfl hname hdefine, rfl, rfl, List.forall_mem_nil _,
        Block.named_iff.mp hblock⟩
  | scopedBlock block =>
    cases List.mem_singleton.mp hopened
    exact entered_branch h (show Statement.Named ⟨.scopedBlock block, line⟩ from hnamed)
  | ifThen condition branch =>
    cases List.mem_singleton.mp hopened
    exact entered_branch h hnamed
  | whileLoop condition branch =>
    cases List.mem_singleton.mp hopened
    exact entered_branch h hnamed
  | ifElse condition branch otherwise =>
    obtain ⟨hfirst, hsecond⟩ := Statement.named_ifElse.mp hnamed
    rcases List.mem_cons.mp hopened with hopened | hopened
    · cases hopened
      exact entered_branch h hfirst
    · cases List.mem_singleton.mp hopened
      exact entered_branch ((adds_visitBranch c hfirst).steady h) hsecond
  | _ => cases hopened

theorem Entered.steady (h : Entered inside first body) :
    inside.Steady ∧ first.Steady ∧ ∀ statement ∈ body, statement.Named := by
  obtain ⟨outside, name, params, houtside, rfl, rfl, hparams, hbody⟩ := h
  exact ⟨houtside.enterScope name, houtside.insertParameters name hparams, hbody⟩

/-- Wherever a collector passes through, its table is layered. -/
theorem steady_of_passes (h : Passes c statements reached) (hc : c.Steady)
    (hnamed : ∀ statement ∈ statements, statement.Named) : reached.Steady := by
  induction h with
  | here => exact hc
  | later _ ih =>
    rw [List.forall_mem_cons] at hnamed
    exact ih ((adds_visit _ hnamed.1).steady hc) hnamed.2
  | opening hopened =>
    exact (entered_of_opened hc (List.forall_mem_cons.mp hnamed).1 hopened).steady.1
  | inside hopened _ ih =>
    obtain ⟨-, hfirst, hbody⟩ :=
      (entered_of_opened hc (List.forall_mem_cons.mp hnamed).1 hopened).steady
    exact ih hfirst hbody

/-- Where a table is layered, the key of a name in the innermost scope is the key of no symbol of
    another scope. -/
theorem Steady.scope_eq (h : c.Steady) {entry : String × Symbol} (hentry : entry ∈ c.table.entries)
    {name : String} (hname : IsIdentifier name) {type : DataType}
    (hkey : entry.1 = Symbol.keyOf name c.scope type) :
    entry.2.scope = c.scope ∧ entry.2.signature = (name, type.decoration) := by
  obtain ⟨outer, layer, frames, hlayered⟩ := h
  have hmem := List.mem_map_of_mem (f := fun entry => (entry.1, entry.2.mark)) hentry
  rw [hlayered.entries] at hmem
  obtain ⟨mark, hmark, hsame⟩ := List.mem_map.mp hmem
  obtain ⟨hmarkKey, rfl⟩ := Prod.mk.inj hsame
  have henclosed : entry.2.mark.scope <+: c.scope := by
    rcases List.mem_append.mp hmark with hmark | hmark
    · exact (hlayered.enclosing _ hmark).1
    · obtain ⟨other, -, hother⟩ := List.mem_map.mp hmark
      rw [← hother]
  exact (Symbol.keyAt_eq_iff henclosed (hlayered.names _ hmark).not_mem_at
    hname.not_mem_at).mp (hmarkKey.trans hkey)

/-! ## Errors of programs -/

/-- A program that is read from a text. -/
def Parsed (program : Block) : Prop :=
  ∃ text session later,
    Session.ofText text = .ok session ∧ Parser.program session = .ok program later

theorem Parsed.named {program : Block} (h : Parsed program) : program.Named := by
  obtain ⟨text, session, later, htext, hread⟩ := h
  exact Parser.isIdentifier_of_program htext hread

/-- A text whose program passes a test. -/
theorem exists_parsed {text : String} {test : Block → Bool}
    (h : (Parser.programOf? text).any test = true) :
    ∃ program, Parsed program ∧ test program = true := by
  obtain ⟨session, later, program, hsession, hread, htest⟩ := Parser.exists_of_programOf? text test h
  exact ⟨program, ⟨text, session, later, hsession, hread⟩, htest⟩

/-- A declaration is never refused. -/
theorem errors_declaration (c : Collector) (type : DataType) (name : String)
    (value : Option Expression) (isFunction isStruct : Bool) (params : List Statement) (line : ℕ) :
    (c.visit ⟨.declaration type name value isFunction isStruct params, line⟩).errors =
      c.errors := by
  have hdeclare (table : SymbolTable) (symbol : Symbol) :
      ∃ table', declare table symbol = .ok table' := by
    rw [declare, SymbolTable.insert]
    by_cases htaken : (table.get? symbol.key).isSome = true
    · exact ⟨table, if_pos htaken⟩
    · exact ⟨_, (if_neg htaken).trans (if_neg htaken)⟩
  rw [visit, visitForm]
  obtain ⟨table, htable⟩ := hdeclare c.table
    { name, scope := c.scope, type, kind := declaredKind isFunction isStruct, line,
      initialized := value.isSome }
  rw [htable]
  rfl

/-- Collecting programs reports no error exactly if no scope instance defines a signature twice: not
    all the programs together, and none of the bodies, blocks and branches in them. Wherever the
    collector stands, the key of a name of the programs there is the key of no live symbol of
    another scope. Declarations are never refused. -/
theorem errors_eq_nil_iff {programs : List Block} (hparsed : ∀ program ∈ programs, Parsed program) :
    ((programs.foldl collect {}).errors = [] ↔
      (programs.flatMap Block.definitions).Nodup ∧
        ∀ program ∈ programs, ∀ scope ∈ program.scopes, scope.Nodup) ∧
    (∀ c, Passes {} (programs.flatMap Block.statements) c →
      ∀ entry ∈ c.table.entries, ∀ name ∈ programs.flatMap Block.names, ∀ type : DataType,
        entry.1 = Symbol.keyOf name c.scope type →
          entry.2.scope = c.scope ∧ entry.2.signature = (name, type.decoration)) ∧
    ∀ (c : Collector) (type : DataType) (name : String) (value : Option Expression)
      (isFunction isStruct : Bool) (params : List Statement) (line : ℕ),
      (c.visit ⟨.declaration type name value isFunction isStruct params, line⟩).errors =
        c.errors := by
  have hnamed : ∀ program ∈ programs, program.Named := fun program hmem =>
    (hparsed program hmem).named
  refine ⟨?_, ?_, errors_declaration⟩
  · obtain ⟨-, layer, errors, -, herrors, hclean, -⟩ := adds_foldl hnamed {} layered_empty
    rw [herrors, show ({} : Collector).errors ++ errors = errors from rfl, hclean,
      Layer.nil_admits_iff]
    simp only [List.mem_flatMap]
    apply and_congr_right
    intro _
    constructor
    · exact fun h program hmem scope hscope => h scope ⟨program, hmem, hscope⟩
    · rintro h scope ⟨program, hmem, hscope⟩
      exact h program hmem scope hscope
  · intro c hpasses entry hentry name hname type hkey
    obtain ⟨program, hmem, hin⟩ := List.mem_flatMap.mp hname
    have hstatements : ∀ statement ∈ programs.flatMap Block.statements, statement.Named := by
      intro statement hstatement
      obtain ⟨program, hmem, hinside⟩ := List.mem_flatMap.mp hstatement
      exact Block.named_iff.mp (hnamed program hmem) statement hinside
    have hsteady := steady_of_passes hpasses ⟨[], [], none, layered_empty⟩ hstatements
    exact hsteady.scope_eq hentry (hnamed program hmem name hin) hkey

/-- The program `alloc int x; { alloc int x; }` defines nothing twice, and two of them do. -/
theorem errors_eq_nil_iff_twice :
    ∃ program : Block, Parsed program ∧ ([program].foldl collect {}).errors = [] ∧
      ([program, program].foldl collect {}).errors ≠ [] := by
  have hreads : (Parser.programOf? "alloc int x; \x7b alloc int x; \x7d").any (fun program =>
      program.definitions == [("x", "iGM")] && program.scopes == [[("x", "iGM")]]) = true := by
    decide +kernel
  obtain ⟨program, hparsed, htest⟩ := exists_parsed hreads
  obtain ⟨hdefinitions, hscopes⟩ : program.definitions = [("x", "iGM")] ∧
      program.scopes = [[("x", "iGM")]] := by
    simpa using htest
  refine ⟨program, hparsed, ?_, ?_⟩
  · apply (errors_eq_nil_iff (List.forall_mem_singleton.mpr hparsed)).1.mpr
    simp [hdefinitions, hscopes]
  · intro hnone
    have hboth : ∀ other ∈ [program, program], Parsed other := by simp [hparsed]
    have hdistinct := ((errors_eq_nil_iff hboth).1.mp hnone).1
    simp [hdefinitions] at hdistinct

end Collector

end SinFrontend
