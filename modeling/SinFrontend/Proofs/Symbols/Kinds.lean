import SinFrontend.Proofs.Symbols.Enclosing
import SinFrontend.Proofs.Symbols.Parameters

/-!
# Which kind a symbol has

The first statement of a scope instance that declares or defines a signature decides on the kind of
its symbol. A definition that completes a declaration takes over the line and makes the symbol
defined, but leaves the kind that the declaration announced.

* `Statement.announcement?`: the signature that a statement declares or defines where it stands, with
  the kind of symbol that it is.
* `Collector.Announces`: a step of the collector that gives a kind to the signatures that have none.
* `announces_visit`: visiting a statement is such a step.
* `Collector.Meets`: collecting statements comes to a scope instance.
* `kind_of_define`: what an accepted definition leaves under its key, and that it stays.
* `not_forall_kind_eq`: the kind is not always that of the definition.
-/

namespace SinFrontend

/-! ## What a statement announces -/

namespace Statement

/-- The signature that a statement declares or defines in the scope where it stands, with its kind. -/
def announcement? : Statement → Option (Signature × SymbolKind)
  | ⟨.declaration type name _ isFunction isStruct _, _⟩ =>
    some ((name, type.decoration), Collector.declaredKind isFunction isStruct)
  | ⟨.allocation type name _, _⟩ => some ((name, type.decoration), .variable)
  | ⟨.functionDefinition name returnType _ _, _⟩ => some ((name, returnType.decoration), .function)
  | ⟨.structDefinition name _, _⟩ =>
    some ((name, (DataType.structNamed name .empty).decoration), .struct)
  | _ => none

/-- The symbol that a statement asks to be defined when it stands in a scope. -/
def defined? (scope : List String) : Statement → Option Symbol
  | ⟨.allocation type name value, line⟩ =>
    some { name, scope, type, kind := .variable, line, initialized := value.isSome }
  | ⟨.functionDefinition name returnType _ _, line⟩ =>
    some { name, scope, type := returnType, kind := .function, line, initialized := true }
  | ⟨.structDefinition name _, line⟩ =>
    some { name, scope, type := .structNamed name .empty, kind := .struct, line }
  | _ => none

variable {statement : Statement} {scope : List String} {symbol : Symbol}

theorem scope_eq_of_defined (h : statement.defined? scope = some symbol) : symbol.scope = scope := by
  obtain ⟨form, line⟩ := statement
  cases form <;> cases h <;> rfl

theorem announcement?_of_defined (h : statement.defined? scope = some symbol) :
    statement.announcement? = some (symbol.signature, symbol.kind) := by
  obtain ⟨form, line⟩ := statement
  cases form <;> cases h <;> rfl

theorem isIdentifier_of_defined (hnamed : statement.Named)
    (h : statement.defined? scope = some symbol) : IsIdentifier symbol.name := by
  obtain ⟨form, line⟩ := statement
  cases form <;> cases h
  · exact List.forall_mem_singleton.mp hnamed
  · exact (Statement.named_functionDefinition.mp hnamed).1
  · exact (List.forall_mem_cons.mp hnamed).1

end Statement

namespace SymbolTable

variable {table after : SymbolTable} {symbol : Symbol}

/-- An accepted definition leaves a defined symbol on its line. The kind is that of the declaration
    which it completes, if there is one. -/
theorem get?_of_define (h : Collector.define table symbol = .ok after) :
    (∀ existing, table.get? symbol.key = some existing → existing.defined = false) ∧
      ∃ entry, after.get? symbol.key = some entry ∧ entry.defined = true ∧
        entry.line = symbol.line ∧
        entry.kind = ((table.get? symbol.key).map (·.kind)).getD symbol.kind := by
  rw [Collector.define] at h
  cases hget : table.get? symbol.key with
  | some existing =>
    simp only [hget] at h
    split at h
    · cases h
    next hundefined =>
      cases h
      let completed : Symbol :=
        { existing with
          defined := true,
          initialized := existing.initialized || symbol.initialized,
          line := symbol.line }
      refine ⟨fun other hother => ?_, completed, ?_, rfl, rfl, rfl⟩
      · cases hother
        exact Bool.eq_false_iff.mpr hundefined
      · rw [get?_modify, if_pos rfl, hget]
        rfl
  | none =>
    simp only [hget] at h
    refine ⟨by simp, { symbol with defined := true }, ?_, rfl, rfl, rfl⟩
    have hkey : symbol.key = ({ symbol with defined := true } : Symbol).key := rfl
    rw [hkey] at hget ⊢
    rw [get?_insert h _ hget, if_pos rfl]

end SymbolTable

namespace Collector

variable {c middle after : Collector} {announced more : List (Signature × SymbolKind)}
  {symbol : Symbol} {table : SymbolTable}

/-- The kind of the symbol of a signature in the scope where the collector stands. -/
def kindOf? (c : Collector) (signature : Signature) : Option SymbolKind :=
  (c.table.get? (Symbol.keyAt c.scope signature)).map (·.kind)

/-! ## Steps of a collector -/

/-- A step of a collector that stays in the scope and gives the announced kinds to the signatures
    that have none there. -/
def Announces (announced : List (Signature × SymbolKind)) (before after : Collector) : Prop :=
  after.scope = before.scope ∧ ∀ signature : Signature, IsIdentifier signature.1 →
    after.kindOf? signature = (before.kindOf? signature).or (announced.lookup signature)

theorem Announces.trans (h : Announces announced c middle) (h' : Announces more middle after) :
    Announces (announced ++ more) c after := by
  refine ⟨h'.1.trans h.1, fun signature hname => ?_⟩
  rw [h'.2 signature hname, h.2 signature hname, List.lookup_append, Option.or_assoc]

/-- A symbol that is settled further keeps its kind. -/
theorem Extends.kindOf? {introduced : List Signature} (h : Extends introduced c after)
    {signature : Signature} {kind : SymbolKind} (hkind : c.kindOf? signature = some kind) :
    after.kindOf? signature = some kind := by
  obtain ⟨symbol, hget, rfl⟩ := Option.map_eq_some_iff.mp hkind
  obtain ⟨later, hlater, hsettles⟩ := h.2.settles hget
  rw [Collector.kindOf?, h.1, hlater, Option.map_some, hsettles.kind]

/-- Nothing is announced by a step that introduces nothing. -/
theorem Extends.announces (h : Extends [] c after) : Announces [] c after := by
  refine ⟨h.1, fun signature _ => ?_⟩
  rw [List.lookup_nil, Option.or_none]
  cases hkind : c.kindOf? signature with
  | some kind => exact h.kindOf? hkind
  | none =>
    rw [Collector.kindOf?, Option.map_eq_none_iff, SymbolTable.get?_eq_none_iff] at hkind ⊢
    rw [h.1, h.2.mem_keys_iff]
    simpa using hkind

/-- A step that introduces one signature announces its kind, if it is the kind of the symbol behind
    it unless there was one before. -/
theorem Extends.announces_singleton {signature : Signature} {kind : SymbolKind}
    (h : Extends [signature] c after) (hname : IsIdentifier signature.1)
    (hkind : c.kindOf? signature = none → after.kindOf? signature = some kind) :
    Announces [(signature, kind)] c after := by
  refine ⟨h.1, fun other hother => ?_⟩
  cases hbefore : c.kindOf? other with
  | some kind => exact h.kindOf? hbefore
  | none =>
    rw [Option.none_or, List.lookup_cons]
    by_cases hsame : other = signature
    · rw [hsame, beq_self_eq_true]
      exact hkind (hsame ▸ hbefore)
    · rw [beq_eq_false_iff_ne.mpr hsame]
      rw [Collector.kindOf?, Option.map_eq_none_iff, SymbolTable.get?_eq_none_iff] at hbefore
      have hnot : Symbol.keyAt c.scope signature ≠ Symbol.keyAt c.scope other :=
        fun hkeys => hsame ((Symbol.keyAt_inj hname hother).mp hkeys).symm
      rw [Collector.kindOf?, h.1]
      refine Option.map_eq_none_iff.mpr (SymbolTable.get?_eq_none_iff.mpr ?_)
      rw [h.2.mem_keys_iff]
      simpa using ⟨hbefore, hnot⟩

/-! ## Statements -/

variable {statement : Statement}

theorem announces_declare (hscope : symbol.scope = c.scope) (hname : IsIdentifier symbol.name) :
    Announces [(symbol.signature, symbol.kind)] c (c.update (declare c.table symbol)) := by
  refine (extends_declare c symbol hscope).announces_singleton hname fun hnone => ?_
  rw [Collector.kindOf?, Option.map_eq_none_iff, ← hscope, ← Symbol.key_eq_keyAt] at hnone
  obtain ⟨after, hafter⟩ : ∃ after, c.table.insert symbol = .ok after :=
    ⟨_, if_neg (by rw [hnone]; simp)⟩
  have hdeclare : declare c.table symbol = .ok after := by
    rw [declare, hnone]
    exact hafter
  rw [hdeclare]
  show (after.get? (Symbol.keyAt c.scope symbol.signature)).map (·.kind) = some symbol.kind
  rw [← hscope, ← Symbol.key_eq_keyAt, SymbolTable.get?_insert hafter _ hnone, if_pos rfl]
  rfl

/-- Behind an accepted definition, nothing more is introduced by the statement that asks for it. -/
theorem extends_visit_of_define (hdefined : statement.defined? c.scope = some symbol)
    (hdefine : define c.table symbol = .ok table) : Extends [] { c with table } (c.visit statement) := by
  obtain ⟨form, line⟩ := statement
  rw [visit]
  cases form with
  | allocation type name value =>
    cases hdefined
    rw [visitForm, hdefine]
    exact .refl _
  | functionDefinition name returnType params body =>
    cases hdefined
    rw [visitForm, hdefine]
    exact extends_functionBody name (fun c => ⟨_, extends_collect c body⟩) { c with table }
  | structDefinition name body =>
    cases hdefined
    rw [visitForm, hdefine]
    exact (extends_collect (enterScope { c with table } name) body).scoped
  | _ => cases hdefined

theorem announces_visit_of_defined (hnamed : statement.Named)
    (hdefined : statement.defined? c.scope = some symbol) :
    Announces [(symbol.signature, symbol.kind)] c (c.visit statement) := by
  have hscope := Statement.scope_eq_of_defined hdefined
  have hintroduces : statement.introduction? = some symbol.signature := by
    obtain ⟨form, line⟩ := statement
    cases form <;> cases hdefined <;> rfl
  have hextends := extends_visit c statement
  rw [hintroduces] at hextends
  refine Extends.announces_singleton hextends (Statement.isIdentifier_of_defined hnamed hdefined)
    fun hnone => ?_
  rw [Collector.kindOf?, Option.map_eq_none_iff, ← hscope, ← Symbol.key_eq_keyAt] at hnone
  obtain ⟨table, hdefine⟩ : ∃ table, define c.table symbol = .ok table := by
    rcases SymbolTable.Extends.define c.table symbol with ⟨_, -, htaken⟩ | ⟨table, hdefine, -⟩
    · exact absurd htaken (SymbolTable.get?_eq_none_iff.mp hnone)
    · exact ⟨table, hdefine⟩
  obtain ⟨-, entry, hentry, -, -, hkind⟩ := SymbolTable.get?_of_define hdefine
  refine (extends_visit_of_define hdefined hdefine).kindOf? ?_
  show (table.get? (Symbol.keyAt c.scope symbol.signature)).map (·.kind) = some symbol.kind
  rw [← hscope, ← Symbol.key_eq_keyAt, hentry, Option.map_some, hkind, hnone]
  rfl

/-- Visiting a statement announces what stands in the statement itself. -/
theorem announces_visit (c : Collector) (hnamed : statement.Named) :
    Announces statement.announcement?.toList c (c.visit statement) := by
  cases hdefined : statement.defined? c.scope with
  | some symbol =>
    rw [Statement.announcement?_of_defined hdefined]
    exact announces_visit_of_defined hnamed hdefined
  | none =>
    have hextends := extends_visit c statement
    obtain ⟨form, line⟩ := statement
    cases form with
    | declaration type name value isFunction isStruct params =>
      rw [visit, visitForm]
      exact announces_declare rfl (Statement.named_declaration.mp hnamed).1
    | allocation | functionDefinition | structDefinition => cases hdefined
    | _ => exact Extends.announces hextends

theorem announces_visitAll {statements : List Statement}
    (hnamed : ∀ statement ∈ statements, statement.Named) (c : Collector) :
    Announces (statements.filterMap Statement.announcement?) c (c.visitAll statements) := by
  induction statements generalizing c with
  | nil => exact Extends.announces (.refl c)
  | cons statement rest ih =>
    rw [List.forall_mem_cons] at hnamed
    have hannouncements : (statement :: rest).filterMap Statement.announcement? =
        statement.announcement?.toList ++ rest.filterMap Statement.announcement? := by
      rw [List.filterMap_cons]
      cases statement.announcement? <;> rfl
    rw [visitAll, hannouncements]
    exact (announces_visit c hnamed.1).trans (ih hnamed.2 (c.visit statement))

/-! ## Scope instances -/

/-- Collecting statements comes to a scope instance, with the collector in front of it: to the
    statements themselves, or to those of a scope that one of them opens. -/
inductive Meets (c : Collector) (statements : List Statement) :
    Collector → List Statement → Prop where
  | whole : Meets c statements c statements
  | opened {first inside start : Collector} {earlier later body : List Statement}
    {statement : Statement} : Meets c statements first (earlier ++ statement :: later) →
      (inside, start, body) ∈ (first.visitAll earlier).opened statement →
      Meets c statements start body

variable {first inside start : Collector} {statements body earlier later : List Statement}

/-- Where statements of an opened scope start, the symbols of the scope are those of parameters. -/
theorem Entered.registers (h : Entered inside start body) :
    ∃ signatures, start.table.Registers start.scope signatures := by
  obtain ⟨outside, name, params, houtside, rfl, rfl, hparams, -⟩ := h
  obtain ⟨taken, -, -, -, hregisters, -⟩ := registers_insertParameters
    (houtside.registers_enterScope name) List.nodup_nil (List.forall_mem_nil _) hparams
  exact ⟨_, hregisters⟩

/-- What is known where a scope instance starts, and what is known of its statements. -/
theorem registers_of_meets (h : Meets {} statements first body)
    (hnamed : ∀ statement ∈ statements, statement.Named) :
    first.Steady ∧ (∀ statement ∈ body, statement.Named) ∧
      ∃ signatures, first.table.Registers first.scope signatures := by
  induction h with
  | whole => exact ⟨⟨[], [], none, layered_empty⟩, hnamed, [], List.forall_mem_nil _, fun _ _ _ => rfl⟩
  | opened _ hopened ih =>
    obtain ⟨hsteady, hbody, -⟩ := ih
    obtain ⟨hearlier, hlater⟩ := List.forall_mem_append.mp hbody
    have hstatement := (List.forall_mem_cons.mp hlater).1
    have hreached := (adds_visitAll _ hearlier).steady hsteady
    have hentered := entered_of_opened hreached hstatement hopened
    obtain ⟨-, hstart, hinside⟩ := hentered.steady
    exact ⟨hstart, hinside, hentered.registers⟩

theorem visitAll_append (c : Collector) (statements more : List Statement) :
    c.visitAll (statements ++ more) = (c.visitAll statements).visitAll more := by
  induction statements generalizing c with
  | nil => rfl
  | cons statement rest ih => exact ih (c.visit statement)

/-- In a scope instance of programs, an accepted definition leaves under its key a defined symbol on
    its line, with the kind of the first statement of the scope instance that declares or defines
    the signature. The statements behind it change nothing of that. -/
theorem kind_of_define {programs : List Block} (hparsed : ∀ program ∈ programs, Parsed program)
    (hmeets : Meets {} (programs.flatMap Block.statements) first (earlier ++ statement :: later))
    (hdefined : statement.defined? (first.visitAll earlier).scope = some symbol)
    (hdefine : define (first.visitAll earlier).table symbol = .ok table) :
    ∃ entry, table.get? symbol.key = some entry ∧ entry.defined = true ∧
      entry.line = symbol.line ∧
      some entry.kind =
        ((earlier ++ [statement]).filterMap Statement.announcement?).lookup symbol.signature ∧
      ∃ final, (first.visitAll (earlier ++ statement :: later)).table.get? symbol.key =
        some final ∧ entry.Settles final := by
  obtain ⟨-, hnamed, signatures, hregisters⟩ := registers_of_meets hmeets (named_of_parsed hparsed)
  obtain ⟨hearlier, hstatement, -⟩ : (∀ statement ∈ earlier, statement.Named) ∧ statement.Named ∧
      ∀ statement ∈ later, statement.Named := by
    rw [List.forall_mem_append, List.forall_mem_cons] at hnamed
    exact hnamed
  have hname : IsIdentifier symbol.signature.1 := Statement.isIdentifier_of_defined hstatement hdefined
  obtain ⟨hscope, hkinds⟩ := announces_visitAll hearlier first
  have hkey : symbol.key = Symbol.keyAt first.scope symbol.signature := by
    rw [Symbol.key_eq_keyAt, Statement.scope_eq_of_defined hdefined, hscope]
  obtain ⟨hundefined, entry, hentry, hentryDefined, hline, hkind⟩ := SymbolTable.get?_of_define hdefine
  -- a parameter of the signature would have stayed defined, and the definition would be refused
  have hfresh : first.kindOf? symbol.signature = none := by
    rw [kindOf?, Option.map_eq_none_iff]
    refine hregisters.absent _ hname fun hparameter => ?_
    obtain ⟨parameter, hget, hparameter⟩ := hregisters.present _ hparameter
    obtain ⟨existing, hexisting, hsettles⟩ := (extends_visitAll first earlier).2.settles hget
    rw [← hkey] at hexisting
    have hfalse := hundefined existing hexisting
    rw [hsettles.defined hparameter.defined] at hfalse
    cases hfalse
  have hbefore : ((first.visitAll earlier).table.get? symbol.key).map (·.kind) =
      (earlier.filterMap Statement.announcement?).lookup symbol.signature := by
    have hreached := hkinds symbol.signature hname
    rw [hfresh, Option.none_or, kindOf?, hscope, ← hkey] at hreached
    exact hreached
  have hlater : Extends (later.filterMap Statement.introduction?) { first.visitAll earlier with table }
      (first.visitAll (earlier ++ statement :: later)) := by
    rw [visitAll_append]
    exact (extends_visit_of_define hdefined hdefine).trans (extends_visitAll _ later)
  refine ⟨entry, hentry, hentryDefined, hline, ?_, hlater.2.settles hentry⟩
  rw [hkind, hbefore, List.filterMap_append, List.lookup_append,
    List.filterMap_cons_some (Statement.announcement?_of_defined hdefined), List.lookup_cons,
    beq_self_eq_true]
  cases (earlier.filterMap Statement.announcement?).lookup symbol.signature <;> rfl

/-- The program `decl int f; def int f() { return 1; }` completes a declaration of a variable by a
    definition of a function. -/
theorem exists_parsed_completedDeclaration : ∃ (program : Block) (declaration statement : Statement)
    (symbol : Symbol) (table : SymbolTable), Parsed program ∧
      program.statements = [declaration, statement] ∧
      declaration.announcement? = some (("f", "iGM"), .variable) ∧
      statement.defined? (({} : Collector).visitAll [declaration]).scope = some symbol ∧
      symbol.signature = ("f", "iGM") ∧ symbol.kind = .function ∧
      define (({} : Collector).visitAll [declaration]).table symbol = .ok table := by
  have hreads : (Parser.programOf? "decl int f; def int f() \x7b return 1; \x7d").any (fun program =>
      program.statements.map Statement.announcement? ==
        [some (("f", "iGM"), .variable), some (("f", "iGM"), .function)] &&
      program.statements.map (fun statement => (statement.defined? []).map Symbol.kind) ==
        [none, some .function]) = true := by
    decide +kernel
  obtain ⟨program, hparsed, htest⟩ := exists_parsed hreads
  obtain ⟨hannounced, hkinds⟩ := Bool.and_eq_true_iff.mp htest
  obtain ⟨declaration, rest, hrest, hdeclared, hannounced⟩ :=
    List.map_eq_cons_iff.mp (beq_iff_eq.mp hannounced)
  obtain ⟨statement, rfl, hfunction⟩ := List.map_eq_singleton_iff.mp hannounced
  rw [hrest] at hkinds
  obtain ⟨hnone, hsome⟩ := List.cons.inj (beq_iff_eq.mp hkinds)
  obtain ⟨symbol, hdefined, hkind⟩ := Option.map_eq_some_iff.mp (List.head_eq_of_cons_eq hsome)
  have hsignature : symbol.signature = ("f", "iGM") := by
    rw [Statement.announcement?_of_defined hdefined] at hfunction
    exact congrArg Prod.fst (Option.some.inj hfunction)
  obtain ⟨form, line⟩ := declaration
  cases form with
  | declaration type name value isFunction isStruct params =>
    let declared : Symbol :=
      { name, scope := [], type, kind := declaredKind isFunction isStruct, line,
        initialized := value.isSome }
    have hget : (({} : Collector).visitAll
        [⟨.declaration type name value isFunction isStruct params, line⟩]).table.get? symbol.key =
          some declared := by
      have hsame : symbol.signature = declared.signature :=
        hsignature.trans (congrArg Prod.fst (Option.some.inj hdeclared)).symm
      have hkey : symbol.key = declared.key := by
        rw [Symbol.key_eq_keyAt, Symbol.key_eq_keyAt, hsame,
          Statement.scope_eq_of_defined hdefined]
      rw [hkey]
      show [(declared.key, declared)].lookup declared.key = some declared
      rw [List.lookup_cons, beq_self_eq_true]
    exact ⟨program, _, statement, symbol, _, hparsed, hrest, hdeclared, hdefined, hsignature, hkind,
      by rw [define, hget]; rfl⟩
  | allocation | functionDefinition | structDefinition => cases hnone
  | _ => cases hdeclared

/-- The declared variable `f` becomes defined by the function `f`, and stays a variable. -/
theorem kind_of_define_variable : ∃ (program : Block) (declaration statement : Statement)
    (symbol : Symbol) (table : SymbolTable), Parsed program ∧
      program.statements = [declaration, statement] ∧
      statement.defined? (({} : Collector).visitAll [declaration]).scope = some symbol ∧
      symbol.kind = .function ∧
      define (({} : Collector).visitAll [declaration]).table symbol = .ok table ∧
      ∃ entry, table.get? symbol.key = some entry ∧ entry.defined = true ∧
        entry.line = symbol.line ∧ entry.kind = .variable := by
  obtain ⟨program, declaration, statement, symbol, table, hparsed, hstatements, hannounced, hdefined,
    hsignature, hkind, hdefine⟩ := exists_parsed_completedDeclaration
  refine ⟨program, declaration, statement, symbol, table, hparsed, hstatements, hdefined, hkind,
    hdefine, ?_⟩
  have hmeets : Meets {} ([program].flatMap Block.statements) {} ([declaration] ++ statement :: []) := by
    rw [List.flatMap_singleton, hstatements]
    exact .whole
  obtain ⟨entry, hentry, hentryDefined, hline, hfirst, -⟩ :=
    kind_of_define (List.forall_mem_singleton.mpr hparsed) hmeets hdefined hdefine
  rw [hsignature, List.singleton_append, List.filterMap_cons_some hannounced, List.lookup_cons,
    beq_self_eq_true] at hfirst
  exact ⟨entry, hentry, hentryDefined, hline, Option.some.inj hfirst⟩

/-- The kind of a symbol is not always that of its definition. -/
theorem not_forall_kind_eq :
    ¬ ∀ programs : List Block, (∀ program ∈ programs, Parsed program) →
      ∀ (first : Collector) (earlier : List Statement) (statement : Statement)
        (later : List Statement),
      Meets {} (programs.flatMap Block.statements) first (earlier ++ statement :: later) →
      ∀ symbol, statement.defined? (first.visitAll earlier).scope = some symbol →
      ∀ table, define (first.visitAll earlier).table symbol = .ok table →
      ∃ entry, table.get? symbol.key = some entry ∧ entry.defined = true ∧
        entry.line = symbol.line ∧ entry.kind = symbol.kind := by
  intro hall
  obtain ⟨program, declaration, statement, symbol, table, hparsed, hstatements, hannounced, hdefined,
    hsignature, hkind, hdefine⟩ := exists_parsed_completedDeclaration
  have hmeets : Meets {} ([program].flatMap Block.statements) {} ([declaration] ++ statement :: []) := by
    rw [List.flatMap_singleton, hstatements]
    exact .whole
  obtain ⟨entry, hentry, -, -, hentryKind⟩ := hall [program] (List.forall_mem_singleton.mpr hparsed) {}
    [declaration] statement [] hmeets symbol hdefined table hdefine
  obtain ⟨-, other, hother, -, -, hkept⟩ := SymbolTable.get?_of_define hdefine
  cases hentry.symm.trans hother
  have hnamed := named_of_parsed (List.forall_mem_singleton.mpr hparsed)
  rw [List.flatMap_singleton, hstatements, List.forall_mem_cons] at hnamed
  obtain ⟨hscope, hannounces⟩ := announces_visitAll (List.forall_mem_singleton.mpr hnamed.1) {}
  have hvariable := hannounces ("f", "iGM") ⟨'f', [], rfl, rfl, List.forall_mem_nil _⟩
  rw [List.filterMap_cons_some hannounced, List.lookup_cons, beq_self_eq_true, kindOf?,
    ← hsignature, ← Statement.scope_eq_of_defined hdefined, ← Symbol.key_eq_keyAt] at hvariable
  rw [hkept, hvariable, hkind] at hentryKind
  cases hentryKind

end Collector

end SinFrontend
