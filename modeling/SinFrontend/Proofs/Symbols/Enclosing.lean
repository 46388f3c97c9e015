import SinFrontend.Proofs.Symbols.Clashes

/-!
# What collecting a block leaves behind

Collecting a block, whether or not errors arise in it, closes every scope that it opens. What was in
the table before is in it behind, at most settled further, and what is new was introduced directly
in the block.

* `Symbol.Settles`: a symbol that has become defined or initialized, and otherwise is the same.
* `SymbolTable.Extends`: a table that has settled its symbols, and has been extended by symbols of
  one scope.
* `Collector.Extends`: a step of the collector that stays in its scope and extends its table there.
* `extends_visit`: visiting a statement is such a step, by induction over statements and blocks.
* `collect_extends`: what holds for every collector and every block, and for whole programs.
-/

namespace SinFrontend

/-! ## Settled symbols -/

/-- A symbol has been settled further: it may have become defined or initialized, and it stands on
    another line only if it became defined. -/
structure Symbol.Settles (before after : Symbol) : Prop where
  name : after.name = before.name
  scope : after.scope = before.scope
  type : after.type = before.type
  kind : after.kind = before.kind
  isParameter : after.isParameter = before.isParameter
  defined : before.defined = true → after.defined = true
  initialized : before.initialized = true → after.initialized = true
  line : after.line ≠ before.line → before.defined = false ∧ after.defined = true

namespace Symbol.Settles

variable {before middle after : Symbol}

theorem refl (symbol : Symbol) : symbol.Settles symbol :=
  ⟨rfl, rfl, rfl, rfl, rfl, id, id, fun h => absurd rfl h⟩

theorem trans (h : before.Settles middle) (h' : middle.Settles after) : before.Settles after := by
  refine ⟨h'.name.trans h.name, h'.scope.trans h.scope, h'.type.trans h.type, h'.kind.trans h.kind,
    h'.isParameter.trans h.isParameter, h'.defined ∘ h.defined, h'.initialized ∘ h.initialized, ?_⟩
  intro hline
  by_cases hfirst : middle.line = before.line
  · obtain ⟨hundefined, hdefined⟩ := h'.line (hfirst ▸ hline)
    exact ⟨Bool.eq_false_iff.mpr fun hbefore => by simp [h.defined hbefore] at hundefined, hdefined⟩
  · obtain ⟨hundefined, hdefined⟩ := h.line hfirst
    exact ⟨hundefined, h'.defined hdefined⟩

theorem key_eq (h : before.Settles after) : after.key = before.key := by
  rw [Symbol.key, Symbol.key, h.name, h.scope, h.type]

theorem signature_eq (h : before.Settles after) : after.signature = before.signature := by
  rw [Symbol.signature, Symbol.signature, h.name, h.type]

end Symbol.Settles

/-! ## Tables -/

namespace SymbolTable

/-- The keys of a table, in the order of insertion. -/
def keys (table : SymbolTable) : List String :=
  table.entries.map (·.1)

variable {table before middle after : SymbolTable} {symbol : Symbol} {key : String}

theorem get?_eq_none_iff : table.get? key = none ↔ key ∉ table.keys := by
  rw [get?, List.lookup_eq_none_iff, keys, List.mem_map]
  simp only [bne_iff_ne, not_exists, not_and]
  exact forall₂_congr fun entry _ => ne_comm

theorem isSome_get?_iff : (table.get? key).isSome = true ↔ key ∈ table.keys := by
  rw [← not_iff_not, ← get?_eq_none_iff, Bool.not_eq_true, Option.isSome_eq_false_iff,
    Option.isNone_iff_eq_none]

theorem mem_keys_of_get? (h : table.get? key = some symbol) : key ∈ table.keys :=
  isSome_get?_iff.mp (by rw [h]; rfl)

theorem keys_modify (table : SymbolTable) (key : String) (change : Symbol → Symbol) :
    (table.modify key change).keys = table.keys := by
  rw [keys, modify, List.map_map]
  apply List.map_congr_left
  intro entry _
  rw [Function.comp_apply]
  split <;> rfl

theorem get?_modify (table : SymbolTable) (key other : String) (change : Symbol → Symbol) :
    (table.modify key change).get? other =
      if other = key then (table.get? other).map change else table.get? other := by
  obtain ⟨entries, frames⟩ := table
  show (entries.map _).lookup other = if other = key then (entries.lookup other).map change
    else entries.lookup other
  induction entries with
  | nil => simp
  | cons entry rest ih =>
    obtain ⟨first, symbol⟩ := entry
    rw [List.map_cons]
    by_cases hother : other = first
    · subst hother
      by_cases hkey : other = key <;> simp [hkey]
    · have hne := beq_eq_false_iff_ne.mpr hother
      by_cases hfirst : first = key
      · rw [if_pos (beq_iff_eq.mpr hfirst), List.lookup_cons, List.lookup_cons, hne]
        exact ih
      · rw [if_neg (mt beq_iff_eq.mp hfirst), List.lookup_cons, List.lookup_cons, hne]
        exact ih

/-- With distinct keys, every entry is found under its key. -/
theorem get?_of_mem (h : table.keys.Nodup) {entry : String × Symbol}
    (hmem : entry ∈ table.entries) : table.get? entry.1 = some entry.2 := by
  obtain ⟨entries, frames⟩ := table
  change (entries.map (·.1)).Nodup at h
  change entry ∈ entries at hmem
  show entries.lookup entry.1 = some entry.2
  induction entries with
  | nil => cases hmem
  | cons first rest ih =>
    rw [List.map_cons, List.nodup_cons] at h
    rw [List.lookup_cons]
    rcases List.mem_cons.mp hmem with rfl | hrest
    · rw [beq_self_eq_true]
    · have hne : entry.1 ≠ first.1 := fun hsame => h.1 (hsame ▸ List.mem_map_of_mem hrest)
      rw [beq_eq_false_iff_ne.mpr hne]
      exact ih h.2 hrest

/-- A table has been extended in a scope: its symbols are settled further, and what is new are
    symbols of that scope. The new ones have the introduced signatures, and their keys are in the
    innermost frame. -/
structure Extends (before after : SymbolTable) (scope : List String)
    (introduced : List Signature) : Prop where
  settles : ∀ ⦃key symbol⦄, before.get? key = some symbol →
    ∃ later, after.get? key = some later ∧ symbol.Settles later
  added : ∃ added : List String, after.keys = before.keys ++ added ∧
    after.frames = before.frames.modifyHead (added.reverse ++ ·) ∧ added.Nodup ∧
      ∀ key ∈ added, key ∉ before.keys ∧ ∃ symbol, after.get? key = some symbol ∧
        symbol.key = key ∧ symbol.scope = scope ∧ symbol.signature ∈ introduced
  present : ∀ signature ∈ introduced, Symbol.keyAt scope signature ∈ after.keys

namespace Extends

variable {scope : List String} {introduced more : List Signature}

theorem refl (table : SymbolTable) (scope : List String) : table.Extends table scope [] :=
  ⟨fun _ symbol hget => ⟨symbol, hget, .refl symbol⟩,
    ⟨[], (List.append_nil _).symm, by cases table.frames <;> rfl, List.nodup_nil, nofun⟩, nofun⟩

/-- Nothing is added for a signature whose key is taken. -/
theorem of_taken (h : table.Extends after scope []) {signature : Signature}
    (htaken : Symbol.keyAt scope signature ∈ table.keys) :
    table.Extends after scope [signature] := by
  obtain ⟨hsettles, ⟨added, hkeys, hframes, hnodup, hadded⟩, -⟩ := h
  refine ⟨hsettles, ⟨added, hkeys, hframes, hnodup, fun key hkey => ?_⟩, fun other hother => ?_⟩
  · obtain ⟨-, _, -, -, -, hnone⟩ := hadded key hkey
    cases hnone
  · rw [hkeys, List.mem_singleton.mp hother]
    exact List.mem_append_left _ htaken

theorem trans (h : before.Extends middle scope introduced)
    (h' : middle.Extends after scope more) : before.Extends after scope (introduced ++ more) := by
  obtain ⟨added, hkeys, hframes, hnodup, hadded⟩ := h.added
  obtain ⟨added', hkeys', hframes', hnodup', hadded'⟩ := h'.added
  have hsubset : middle.keys ⊆ after.keys := hkeys' ▸ List.subset_append_left _ _
  refine ⟨fun key symbol hget => ?_, ⟨added ++ added', ?_, ?_, ?_, ?_⟩, ?_⟩
  · obtain ⟨next, hnext, hsettles⟩ := h.settles hget
    obtain ⟨later, hlater, hsettles'⟩ := h'.settles hnext
    exact ⟨later, hlater, hsettles.trans hsettles'⟩
  · rw [hkeys', hkeys, List.append_assoc]
  · rw [hframes', hframes]
    cases before.frames with
    | nil => rfl
    | cons keys rest => simp
  · rw [List.nodup_append]
    refine ⟨hnodup, hnodup', fun key hkey other hother hsame => ?_⟩
    refine (hadded' other hother).1 ?_
    rw [hkeys, ← hsame]
    exact List.mem_append_right _ hkey
  · rw [List.forall_mem_append]
    constructor
    · intro key hkey
      obtain ⟨hfree, symbol, hget, hsymbol, hscope, hsignature⟩ := hadded key hkey
      obtain ⟨later, hlater, hsettles⟩ := h'.settles hget
      refine ⟨hfree, later, hlater, hsettles.key_eq.trans hsymbol, hsettles.scope.trans hscope, ?_⟩
      rw [hsettles.signature_eq]
      exact List.mem_append_left _ hsignature
    · intro key hkey
      obtain ⟨hfree, symbol, hget, hsymbol, hscope, hsignature⟩ := hadded' key hkey
      refine ⟨fun hbefore => hfree ?_, symbol, hget, hsymbol, hscope,
        List.mem_append_right _ hsignature⟩
      rw [hkeys]
      exact List.mem_append_left _ hbefore
  · rw [List.forall_mem_append]
    exact ⟨fun signature hmem => hsubset (h.present signature hmem), h'.present⟩

/-- What was added inside a scope goes when it is closed, and the rest stays. -/
theorem exitScope {inner : List String} (h : before.enterScope.Extends after inner introduced) :
    before.Extends after.exitScope.2 scope [] := by
  obtain ⟨added, hkeys, hframes, hnodup, hadded⟩ := h.added
  change after.keys = before.keys ++ added at hkeys
  have hframes' : after.frames = added.reverse :: before.frames := by
    simpa [SymbolTable.enterScope] using hframes
  have hexit : after.exitScope.2 =
      { entries := after.entries.filter fun entry => !added.reverse.contains entry.1,
        frames := before.frames } := by
    rw [SymbolTable.exitScope, hframes']
  have hlookup : ∀ key, key ∉ added → after.exitScope.2.get? key = after.get? key := by
    intro key hkey
    rw [hexit, get?, get?]
    dsimp only
    generalize after.entries = entries
    induction entries with
    | nil => rfl
    | cons entry rest ih =>
      by_cases hentry : entry.1 ∈ added
      · have hne : key ≠ entry.1 := fun hsame => hkey (hsame ▸ hentry)
        rw [List.filter_cons_of_neg (by simpa using hentry), ih, List.lookup_cons,
          beq_eq_false_iff_ne.mpr hne]
      · rw [List.filter_cons_of_pos (by simpa using hentry), List.lookup_cons, List.lookup_cons, ih]
  have hkept : after.exitScope.2.keys = before.keys := by
    have hpush : after.exitScope.2.keys =
        after.keys.filter fun key => !added.reverse.contains key := by
      rw [hexit, keys, keys, List.filter_map]
      rfl
    rw [hpush, hkeys, List.filter_append, List.filter_eq_self.mpr, List.filter_eq_nil_iff.mpr,
      List.append_nil]
    · intro key hkey
      simpa using hkey
    · intro key hkey
      simpa using fun hmem => (hadded key hmem).1 hkey
  refine ⟨fun key symbol hget => ?_,
    ⟨[], by rw [hkept, List.append_nil], ?_, List.nodup_nil, by simp⟩, by simp⟩
  · have hfree : key ∉ added := fun hmem => (hadded key hmem).1 (mem_keys_of_get? hget)
    rw [hlookup key hfree]
    exact h.settles hget
  · rw [hexit]
    cases before.frames <;> rfl

theorem depth_eq (h : before.Extends after scope introduced) : after.depth = before.depth := by
  obtain ⟨added, -, hframes, -, -⟩ := h.added
  rw [depth, depth, hframes, List.length_modifyHead]

/-- The keys behind are the keys before and those of the introduced signatures. -/
theorem mem_keys_iff (h : before.Extends after scope introduced) :
    key ∈ after.keys ↔
      key ∈ before.keys ∨ ∃ signature ∈ introduced, Symbol.keyAt scope signature = key := by
  obtain ⟨added, hkeys, -, -, hadded⟩ := h.added
  constructor
  · intro hmem
    rcases List.mem_append.mp (hkeys ▸ hmem) with hbefore | hnew
    · exact .inl hbefore
    · obtain ⟨-, symbol, -, hkey, hscope, hsignature⟩ := hadded key hnew
      rw [Symbol.key_eq_keyAt, hscope] at hkey
      exact .inr ⟨symbol.signature, hsignature, hkey⟩
  · rintro (hbefore | ⟨signature, hmem, rfl⟩)
    · exact hkeys ▸ List.mem_append_left _ hbefore
    · exact h.present signature hmem

/-- What is found under a new key is a symbol of the scope. -/
theorem get?_new (h : before.Extends after scope introduced) (hget : after.get? key = some symbol)
    (hnew : key ∉ before.keys) :
    symbol.key = key ∧ symbol.scope = scope ∧ symbol.signature ∈ introduced := by
  obtain ⟨added, hkeys, -, -, hadded⟩ := h.added
  have hmem : key ∈ before.keys ++ added := hkeys ▸ mem_keys_of_get? hget
  obtain ⟨-, other, hother, hnew⟩ := hadded key ((List.mem_append.mp hmem).resolve_left hnew)
  cases hget.symm.trans hother
  exact hnew

/-- Symbols may be settled further where they stand. -/
theorem modify {change : Symbol → Symbol}
    (h : ∀ symbol, table.get? key = some symbol → symbol.Settles (change symbol))
    (scope : List String) : table.Extends (table.modify key change) scope [] := by
  refine ⟨fun other symbol hget => ?_, ⟨[], ?_, ?_, List.nodup_nil, nofun⟩, nofun⟩
  · rw [get?_modify]
    split
    next hsame =>
      rw [hget]
      exact ⟨_, rfl, h symbol (hsame ▸ hget)⟩
    next => exact ⟨symbol, hget, .refl symbol⟩
  · rw [keys_modify, List.append_nil]
  · cases hframes : table.frames <;> simp [SymbolTable.modify, hframes]

theorem insert (h : table.insert symbol = .ok after) :
    table.Extends after symbol.scope [symbol.signature] := by
  rw [SymbolTable.insert] at h
  split at h
  · cases h
  next hfree =>
    cases h
    have hnot : symbol.key ∉ table.keys := fun hmem => hfree (isSome_get?_iff.mpr hmem)
    refine ⟨fun key other hget => ⟨other, ?_, .refl other⟩, ⟨[symbol.key], ?_, ?_, ?_, ?_⟩, ?_⟩
    · rw [get?, List.lookup_append, ← get?, hget]
      rfl
    · simp [keys]
    · cases table.frames <;> rfl
    · exact List.nodup_singleton _
    · rw [List.forall_mem_singleton]
      refine ⟨hnot, symbol, ?_, rfl, rfl, List.mem_singleton_self _⟩
      rw [get?, List.lookup_append, ← get?, get?_eq_none_iff.mpr hnot]
      simp
    · rw [List.forall_mem_singleton]
      simp [keys, Symbol.key_eq_keyAt]

/-- A declaration is never refused. -/
theorem declare (table : SymbolTable) (symbol : Symbol) :
    ∃ after, Collector.declare table symbol = .ok after ∧
      table.Extends after symbol.scope [symbol.signature] := by
  rw [Collector.declare]
  by_cases htaken : (table.get? symbol.key).isSome = true
  · rw [if_pos htaken]
    exact ⟨table, rfl, .of_taken (.refl table symbol.scope) (isSome_get?_iff.mp htaken)⟩
  · rw [if_neg htaken]
    obtain ⟨after, hafter⟩ : ∃ after, table.insert symbol = .ok after := ⟨_, if_neg htaken⟩
    exact ⟨after, hafter, .insert hafter⟩

/-- A definition is refused only if the key is taken, and otherwise settles or adds its symbol. -/
theorem define (table : SymbolTable) (symbol : Symbol) :
    (∃ error, Collector.define table symbol = .error error ∧ symbol.key ∈ table.keys) ∨
      ∃ after, Collector.define table symbol = .ok after ∧
        table.Extends after symbol.scope [symbol.signature] := by
  rw [Collector.define]
  cases hget : table.get? symbol.key with
  | some existing =>
    have htaken := mem_keys_of_get? hget
    by_cases hdefined : existing.defined = true
    · exact .inl ⟨_, if_pos hdefined, htaken⟩
    · refine .inr ⟨_, if_neg hdefined, .of_taken (.modify ?_ symbol.scope) htaken⟩
      intro other hother
      cases hget.symm.trans hother
      exact ⟨rfl, rfl, rfl, rfl, rfl, fun _ => rfl, fun h => by simp [h],
        fun _ => ⟨Bool.eq_false_iff.mpr hdefined, rfl⟩⟩
  | none =>
    let defined : Symbol := { symbol with defined := true }
    have hfree : ¬ (table.get? defined.key).isSome = true := by
      rw [show table.get? defined.key = none from hget]
      simp
    obtain ⟨after, hafter⟩ : ∃ after, table.insert defined = .ok after := ⟨_, if_neg hfree⟩
    have hextends : table.Extends after defined.scope [defined.signature] := .insert hafter
    exact .inr ⟨after, hafter, hextends⟩

end Extends

end SymbolTable

/-! ## What a block introduces -/

/-- The signature that a statement declares or defines in the scope in which it stands. -/
def Statement.introduction? : Statement → Option Signature
  | ⟨.declaration type name _ _ _ _, _⟩ => some (name, type.decoration)
  | statement => statement.definition?

/-- The signatures that are declared or defined directly in a block. -/
def Block.introductions (block : Block) : List Signature :=
  block.statements.filterMap Statement.introduction?

namespace Collector

/-! ## Steps of a collector -/

/-- A step from one collector to another that stays in the scope and extends the table there. -/
def Extends (introduced : List Signature) (before after : Collector) : Prop :=
  after.scope = before.scope ∧ before.table.Extends after.table before.scope introduced

variable {c middle after : Collector} {introduced more : List Signature} {symbol : Symbol}
  {table : SymbolTable}

namespace Extends

theorem refl (c : Collector) : Extends [] c c :=
  ⟨rfl, .refl c.table c.scope⟩

theorem trans (h : Extends introduced c middle) (h' : Extends more middle after) :
    Extends (introduced ++ more) c after :=
  ⟨h'.1.trans h.1, h.2.trans (h.1 ▸ h'.2)⟩

theorem report (h : Extends introduced c after) (error : CompileError) :
    Extends introduced c (after.report error) :=
  h

end Extends

/-- A step inside a scope that is opened before it and closed behind it. -/
theorem Extends.scoped {name : String} (h : Extends introduced (c.enterScope name) after) :
    Extends [] c after.exitScope := by
  obtain ⟨hscope, htable⟩ := h
  have hclosed : c.table.Extends after.table.exitScope.2 c.scope [] := htable.exitScope
  refine ⟨?_, hclosed⟩
  show after.scope.dropLast = _
  rw [hscope]
  exact List.dropLast_concat

/-! ## Symbols -/

theorem extends_declare (c : Collector) (symbol : Symbol) (hscope : symbol.scope = c.scope) :
    Extends [symbol.signature] c (c.update (declare c.table symbol)) := by
  obtain ⟨table, hdeclare, hextends⟩ := SymbolTable.Extends.declare c.table symbol
  rw [hdeclare]
  exact ⟨rfl, hscope ▸ hextends⟩

/-- What follows a definition is left out if the definition is refused. -/
theorem extends_define_then (c : Collector) (symbol : Symbol) (hscope : symbol.scope = c.scope)
    {next : Collector → Collector} (hnext : ∀ c, Extends [] c (next c)) :
    Extends [symbol.signature] c
      (match define c.table symbol with
       | .error error => c.report error
       | .ok table => next { c with table }) := by
  rcases SymbolTable.Extends.define c.table symbol with
    ⟨error, hdefine, htaken⟩ | ⟨table, hdefine, hextends⟩
  · rw [hdefine]
    rw [Symbol.key_eq_keyAt, hscope] at htaken
    exact ⟨rfl, .of_taken (.refl c.table c.scope) htaken⟩
  · rw [hdefine]
    have hstep : Extends [symbol.signature] c { c with table } := ⟨rfl, hscope ▸ hextends⟩
    exact hstep.trans (hnext _)

theorem extends_define (c : Collector) (symbol : Symbol) (hscope : symbol.scope = c.scope) :
    Extends [symbol.signature] c (c.update (define c.table symbol)) := by
  have hthen := extends_define_then c symbol hscope .refl
  cases hdefine : define c.table symbol with
  | error error =>
    rw [hdefine] at hthen
    exact hthen
  | ok table =>
    rw [hdefine] at hthen
    exact hthen

theorem extends_markInitialized (c : Collector) (target : Expression) :
    Extends [] c (c.markInitialized target) := by
  unfold markInitialized
  split
  · split
    next symbol _ =>
      have hsettles (other : Symbol) : other.Settles { other with initialized := true } :=
        ⟨rfl, rfl, rfl, rfl, rfl, id, fun _ => rfl, fun h => absurd rfl h⟩
      have hmodify : c.table.Extends (c.table.modify symbol.key fun symbol =>
          { symbol with initialized := true }) c.scope [] :=
        .modify (fun other _ => hsettles other) _
      exact ⟨rfl, hmodify⟩
    next => exact .refl c
  · exact .refl c

/-! ## Functions -/

/-- Parameters introduce symbols up to the first that clashes. -/
theorem extends_insertParameters (scope : List String) (params : List Statement)
    (table : SymbolTable) :
    ∃ introduced, table.Extends (insertParameters scope table params).1 scope introduced := by
  induction params generalizing table with
  | nil => exact ⟨[], .refl table scope⟩
  | cons param rest ih =>
    obtain ⟨form, line⟩ := param
    cases form with
    | declaration type name value isFunction isStruct params =>
      rw [insertParameters]
      split
      next after hinsert =>
        obtain ⟨introduced, hrest⟩ := ih after
        exact ⟨_, (SymbolTable.Extends.insert hinsert).trans hrest⟩
      next => exact ⟨[], .refl table scope⟩
    | _ => exact ih table

/-- The scope of a function, with its parameters and its body, is closed behind it. -/
theorem extends_functionBody {params : List Statement} {body : Block} (name : String)
    (hbody : ∀ c : Collector, ∃ introduced, Extends introduced c (c.collect body)) (c : Collector) :
    Extends [] c
      (match insertParameters (c.scope ++ [name]) c.table.enterScope params with
       | (table, clash) =>
         let outside := ({ c.enterScope name with table }.collect body).exitScope
         match clash with
         | some error => outside.report error
         | none => outside) := by
  obtain ⟨parameters, hparams⟩ :=
    extends_insertParameters (c.scope ++ [name]) params c.table.enterScope
  generalize insertParameters (c.scope ++ [name]) c.table.enterScope params = result at hparams ⊢
  obtain ⟨table, clash⟩ := result
  obtain ⟨introduced, hcollect⟩ := hbody { c.enterScope name with table }
  have hinside : Extends parameters (c.enterScope name) { c.enterScope name with table } :=
    ⟨rfl, hparams⟩
  have houtside := (hinside.trans hcollect).scoped
  cases clash with
  | none => exact houtside
  | some error => exact houtside.report error

/-! ## Statements -/

mutual

/-- Visiting a statement extends the table by what the statement introduces. -/
theorem extends_visit (c : Collector) : ∀ statement : Statement,
    Extends statement.introduction?.toList c (c.visit statement)
  | ⟨form, line⟩ => by
    rw [visit]
    exact extends_visitForm c line form

theorem extends_visitForm (c : Collector) (line : ℕ) : ∀ form : Form,
    Extends (Statement.introduction? ⟨form, line⟩).toList c (c.visitForm line form)
  | .declaration type name value isFunction isStruct params => by
    let symbol : Symbol :=
      { name, scope := c.scope, type, kind := declaredKind isFunction isStruct, line,
        initialized := value.isSome }
    rw [visitForm]
    exact extends_declare c symbol rfl
  | .allocation type name value => by
    let symbol : Symbol :=
      { name, scope := c.scope, type, kind := .variable, line, initialized := value.isSome }
    rw [visitForm]
    exact extends_define c symbol rfl
  | .functionDefinition name returnType params body => by
    let symbol : Symbol :=
      { name, scope := c.scope, type := returnType, kind := .function, line, initialized := true }
    rw [visitForm]
    exact extends_define_then c symbol rfl
      (extends_functionBody name fun c => ⟨_, extends_collect c body⟩)
  | .structDefinition name body => by
    let symbol : Symbol :=
      { name, scope := c.scope, type := .structNamed name .empty, kind := .struct, line }
    rw [visitForm]
    exact extends_define_then c symbol rfl fun c =>
      (extends_collect (c.enterScope name) body).scoped
  | .scopedBlock block => by
    rw [visitForm]
    exact (extends_collect c.enterAnonymousScope block).scoped
  | .ifThen _ branch => by
    rw [visitForm]
    exact extends_visitBranch c branch
  | .ifElse _ branch otherwise => by
    rw [visitForm]
    exact (extends_visitBranch c branch).trans (extends_visitBranch _ otherwise)
  | .whileLoop _ branch => by
    rw [visitForm]
    exact extends_visitBranch c branch
  | .assignment target _ => by
    rw [visitForm]
    exact extends_markInitialized c target
  | .compoundAssignment target _ _ => by
    rw [visitForm]
    exact extends_markInitialized c target
  | .movement destination _ => by
    rw [visitForm]
    exact extends_markInitialized c destination
  | .construction target _ => by
    rw [visitForm]
    exact extends_markInitialized c target
  | .includeFile _ | .returnValue _ | .call _ => by
    rw [visitForm]
    exact .refl c

/-- A branch introduces nothing in the scope in which it stands. -/
theorem extends_visitBranch (c : Collector) : ∀ branch : Statement,
    Extends [] c (c.visitBranch branch)
  | ⟨.scopedBlock block, _⟩ => (extends_collect c.enterAnonymousScope block).scoped
  | ⟨.declaration .., line⟩ | ⟨.allocation .., line⟩ | ⟨.functionDefinition .., line⟩
  | ⟨.structDefinition .., line⟩ | ⟨.ifThen .., line⟩ | ⟨.ifElse .., line⟩ | ⟨.whileLoop .., line⟩
  | ⟨.assignment .., line⟩ | ⟨.compoundAssignment .., line⟩ | ⟨.movement .., line⟩
  | ⟨.construction .., line⟩ | ⟨.includeFile .., line⟩ | ⟨.returnValue .., line⟩
  | ⟨.call .., line⟩ => (extends_visitForm c.enterAnonymousScope line _).scoped

/-- Collecting a block extends the table by what stands directly in the block. -/
theorem extends_collect (c : Collector) : ∀ block : Block,
    Extends block.introductions c (c.collect block)
  | ⟨statements, _⟩ => by
    rw [collect]
    exact extends_visitAll c statements

theorem extends_visitAll (c : Collector) : ∀ statements : List Statement,
    Extends (statements.filterMap Statement.introduction?) c (c.visitAll statements)
  | [] => .refl c
  | statement :: rest => by
    have hintroductions : (statement :: rest).filterMap Statement.introduction? =
        statement.introduction?.toList ++ rest.filterMap Statement.introduction? := by
      rw [List.filterMap_cons]
      cases statement.introduction? <;> rfl
    rw [visitAll, hintroductions]
    exact (extends_visit c statement).trans (extends_visitAll (c.visit statement) rest)

end

/-! ## Programs -/

theorem extends_foldl (programs : List Block) :
    ∀ c, Extends (programs.flatMap Block.introductions) c (programs.foldl collect c) := by
  induction programs with
  | nil => exact .refl
  | cons program rest ih =>
    intro c
    exact (extends_collect c program).trans (ih (c.collect program))

/-- However a block ends, collecting it leaves scope and depth as they were. The keys behind are the
    keys before and those of what stands directly in the block, whose symbols have the scope, and
    the symbols before are settled further at most. So the symbols of whole programs have the empty
    scope. -/
theorem collect_extends :
    (∀ (c : Collector) (block : Block),
      (c.collect block).scope = c.scope ∧ (c.collect block).table.depth = c.table.depth ∧
      (∀ key, key ∈ (c.collect block).table.keys ↔
        key ∈ c.table.keys ∨
          ∃ signature ∈ block.introductions, Symbol.keyAt c.scope signature = key) ∧
      (∀ key symbol, (c.collect block).table.get? key = some symbol → key ∉ c.table.keys →
        symbol.key = key ∧ symbol.scope = c.scope ∧ symbol.signature ∈ block.introductions) ∧
      ∀ key symbol, c.table.get? key = some symbol →
        ∃ later, (c.collect block).table.get? key = some later ∧ symbol.Settles later) ∧
    ∀ programs : List Block,
      (programs.foldl collect {}).scope = [] ∧ (programs.foldl collect {}).table.depth = 0 ∧
        ∀ symbol ∈ (programs.foldl collect {}).table.symbols, symbol.scope = [] := by
  constructor
  · intro c block
    obtain ⟨hscope, htable⟩ := extends_collect c block
    exact ⟨hscope, htable.depth_eq, fun key => htable.mem_keys_iff,
      fun key symbol => htable.get?_new, fun key symbol hget => htable.settles hget⟩
  · intro programs
    obtain ⟨hscope, htable⟩ := extends_foldl programs {}
    refine ⟨hscope, htable.depth_eq, fun symbol hmem => ?_⟩
    obtain ⟨entry, hentry, rfl⟩ := List.mem_map.mp hmem
    have hdistinct : (programs.foldl collect {}).table.keys.Nodup := by
      obtain ⟨added, hkeys, -, hnodup, -⟩ := htable.added
      exact hkeys ▸ hnodup
    exact (htable.get?_new (SymbolTable.get?_of_mem hdistinct hentry) nofun).2.1

end Collector

end SinFrontend
