import Mathlib.Data.List.Infix
import Mathlib.Data.List.Nodup
import SinFrontend.Proofs.Lexing.Words
import SinFrontend.Proofs.Symbols.Key
import SinFrontend.Symbol.Collector

/-!
# A table, seen from one scope

Seen from the scope that is innermost, the symbols of a table fall into a layer, the symbols of that
scope itself, and the symbols of the scopes around it. What is done in the scope changes the layer
alone, and closing the scope takes it away.

* `Mark`: what decides whether symbols clash.
* `SymbolTable.Layered`: a table holds the marks of the enclosing scopes and then those of a layer,
  and its innermost frame lists the keys of the layer.
* `Layered.get?_defined`: a key of the scope is looked up in the layer alone.
* `Layered.enterScope`, `Layered.exitScope`: a scope is opened with an empty layer, and closing it
  restores the layer around it.
-/

namespace SinFrontend

/-! ## Marks and layers -/

/-- What decides whether symbols clash: where they stand, their signature, and whether they are
    defined. -/
structure Mark where
  scope : List String
  signature : Signature
  defined : Bool

/-- The mark of a symbol. -/
def Symbol.mark (symbol : Symbol) : Mark :=
  ⟨symbol.scope, symbol.signature, symbol.defined⟩

/-- The key of every symbol with a mark. -/
def Mark.key (mark : Mark) : String :=
  Symbol.keyAt mark.scope mark.signature

/-- The signatures of the symbols of one scope, in the order of insertion, each with whether its
    symbol is defined. -/
abbrev Layer := List (Signature × Bool)

namespace Layer

/-- The marks of the symbols of a layer. -/
def marks (layer : Layer) (scope : List String) : List Mark :=
  layer.map fun entry => ⟨scope, entry.1, entry.2⟩

/-- The keys of the symbols of a layer, the latest first. -/
def keys (layer : Layer) (scope : List String) : List String :=
  (layer.map fun entry => Symbol.keyAt scope entry.1).reverse

/-- A signature is defined in a layer. -/
def Defines (layer : Layer) (signature : Signature) : Prop :=
  layer.lookup signature = some true

/-- The layer in which a declared signature has become defined. -/
def complete (layer : Layer) (signature : Signature) : Layer :=
  layer.map fun entry => if entry.1 = signature then (entry.1, true) else entry

/-- Signatures that can be defined one after the other: none of them is defined yet, and none comes
    twice. -/
def Admits (layer : Layer) (signatures : List Signature) : Prop :=
  signatures.Nodup ∧ ∀ signature ∈ signatures, ¬ layer.Defines signature

variable {layer after : Layer} {signature other : Signature}

theorem admits_nil (layer : Layer) : layer.Admits [] :=
  ⟨List.nodup_nil, nofun⟩

theorem nil_admits_iff {signatures : List Signature} :
    Layer.Admits [] signatures ↔ signatures.Nodup :=
  and_iff_left fun _ _ => nofun

theorem admits_singleton : layer.Admits [signature] ↔ ¬ layer.Defines signature := by
  simp [Admits]

/-- Signatures are admitted in two portions if the second one is admitted behind the first. -/
theorem admits_append {here there : List Signature}
    (h : ∀ signature, after.Defines signature ↔ layer.Defines signature ∨ signature ∈ here) :
    layer.Admits (here ++ there) ↔ layer.Admits here ∧ after.Admits there := by
  simp only [Admits, List.nodup_append, List.forall_mem_append, h, not_or]
  constructor
  · rintro ⟨⟨hhere, hthere, hne⟩, hold, hnew⟩
    exact ⟨⟨hhere, hold⟩, hthere, fun signature hmem =>
      ⟨hnew signature hmem, fun hother => hne signature hother signature hmem rfl⟩⟩
  · rintro ⟨⟨hhere, hold⟩, hthere, hnew⟩
    refine ⟨⟨hhere, hthere, ?_⟩, hold, fun signature hmem => (hnew signature hmem).1⟩
    rintro signature hmem other hother rfl
    exact (hnew signature hother).2 hmem

theorem defines_append_singleton (hfree : layer.lookup signature = none) (defined : Bool) :
    Layer.Defines (layer ++ [(signature, defined)]) other ↔
      layer.Defines other ∨ other = signature ∧ defined = true := by
  rw [Defines, Defines, List.lookup_append, List.lookup_cons]
  by_cases hsame : other = signature
  · simp [hsame, hfree]
  · rw [beq_eq_false_iff_ne.mpr hsame]
    simp [hsame]

theorem lookup_complete (layer : Layer) (signature other : Signature) :
    (layer.complete signature).lookup other =
      if other = signature then (layer.lookup other).map fun _ => true else layer.lookup other := by
  induction layer with
  | nil => simp [complete]
  | cons entry rest ih =>
    obtain ⟨first, defined⟩ := entry
    rw [complete, List.map_cons, ← complete, List.lookup_cons]
    by_cases hfirst : first = signature <;> by_cases hother : other = first
    · simp [hfirst, hother]
    · rw [if_pos hfirst, List.lookup_cons, beq_eq_false_iff_ne.mpr hother]
      exact ih
    · simp [hfirst, hother]
    · rw [if_neg hfirst, List.lookup_cons, beq_eq_false_iff_ne.mpr hother]
      exact ih

theorem defines_complete (hdeclared : (layer.lookup signature).isSome = true) :
    (layer.complete signature).Defines other ↔ layer.Defines other ∨ other = signature := by
  rw [Defines, Defines, lookup_complete]
  by_cases hsame : other = signature
  · obtain ⟨defined, hdefined⟩ := Option.isSome_iff_exists.mp hdeclared
    simp [hsame, hdefined]
  · simp [hsame]

end Layer

/-- Seen from `scope`, a table holds the marks of the enclosing scopes, then those of a layer.
    Unless no scope is open, its frames are the keys of the layer and then `frames`. -/
structure SymbolTable.Layered (table : SymbolTable) (scope : List String) (outer : List Mark)
    (layer : Layer) (frames : Option (List (List String))) : Prop where
  entries : table.entries.map (fun entry => (entry.1, entry.2.mark)) =
    (outer ++ layer.marks scope).map fun mark => (mark.key, mark)
  enclosing : ∀ mark ∈ outer, mark.scope <+: scope ∧ mark.scope ≠ scope
  names : ∀ mark ∈ outer ++ layer.marks scope, IsIdentifier mark.signature.1
  distinct : (layer.map (·.1)).Nodup
  frames_eq : table.frames = frames.elim [] (layer.keys scope :: ·)

/-! ## Keys -/

theorem IsIdentifier.not_mem_at {name : String} (h : IsIdentifier name) : '@' ∉ name.toList :=
  h.not_mem (by decide)

namespace Symbol

theorem keyAt_inj {scope : List String} {signature other : Signature}
    (hname : IsIdentifier signature.1) (hother : IsIdentifier other.1) :
    keyAt scope signature = keyAt scope other ↔ signature = other := by
  rw [keyAt_eq_iff (List.prefix_refl scope) hname.not_mem_at hother.not_mem_at]
  exact and_iff_right rfl

end Symbol

namespace SymbolTable.Layered

variable {table : SymbolTable} {scope : List String} {outer : List Mark} {layer : Layer}
  {frames : Option (List (List String))} {signature : Signature}

/-! ## Looking up -/

theorem lookup_map_snd {α β γ : Type} [BEq α] (f : β → γ) (entries : List (α × β)) (key : α) :
    (entries.map fun entry => (entry.1, f entry.2)).lookup key = (entries.lookup key).map f := by
  induction entries with
  | nil => rfl
  | cons entry rest ih =>
    obtain ⟨other, value⟩ := entry
    rw [List.map_cons, List.lookup_cons, List.lookup_cons, ih]
    cases key == other <;> rfl

/-- The enclosing scopes hold no key of the innermost scope. -/
theorem key_ne (h : table.Layered scope outer layer frames) {mark : Mark} (hmark : mark ∈ outer)
    (hname : IsIdentifier signature.1) : mark.key ≠ Symbol.keyAt scope signature := by
  obtain ⟨henclosed, hne⟩ := h.enclosing mark hmark
  have hother := h.names mark (List.mem_append_left _ hmark)
  intro hkeys
  exact hne ((Symbol.keyAt_eq_iff henclosed hother.not_mem_at hname.not_mem_at).mp hkeys).1

theorem lookup_outer (h : table.Layered scope outer layer frames) (hname : IsIdentifier signature.1)
    {marks : List Mark} (hmarks : ∀ mark ∈ marks, mark ∈ outer) (rest : List (String × Mark)) :
    (marks.map (fun mark => (mark.key, mark)) ++ rest).lookup (Symbol.keyAt scope signature) =
      rest.lookup (Symbol.keyAt scope signature) := by
  induction marks with
  | nil => rfl
  | cons mark marks ih =>
    rw [List.forall_mem_cons] at hmarks
    have hkey := h.key_ne hmarks.1 hname
    rw [List.map_cons, List.cons_append, List.lookup_cons, beq_eq_false_iff_ne.mpr hkey.symm]
    exact ih hmarks.2

theorem lookup_marks (layer : Layer) (hlayer : ∀ entry ∈ layer, IsIdentifier entry.1.1)
    (hname : IsIdentifier signature.1) :
    ((layer.marks scope).map fun mark => (mark.key, mark)).lookup (Symbol.keyAt scope signature) =
      (layer.lookup signature).map fun defined => ⟨scope, signature, defined⟩ := by
  induction layer with
  | nil => rfl
  | cons entry rest ih =>
    obtain ⟨other, defined⟩ := entry
    rw [List.forall_mem_cons] at hlayer
    rw [Layer.marks, List.map_cons, List.map_cons, List.lookup_cons, List.lookup_cons]
    by_cases hsame : signature = other
    · simp [hsame, Mark.key]
    · have hkey : Symbol.keyAt scope signature ≠ Symbol.keyAt scope other :=
        mt (Symbol.keyAt_inj hname hlayer.1).mp hsame
      rw [beq_eq_false_iff_ne.mpr hsame, Mark.key, beq_eq_false_iff_ne.mpr hkey]
      exact ih hlayer.2

theorem isIdentifier_of_mem (h : table.Layered scope outer layer frames) :
    ∀ entry ∈ layer, IsIdentifier entry.1.1 := fun entry hmem =>
  h.names ⟨scope, entry.1, entry.2⟩
    (List.mem_append_right _ (List.mem_map_of_mem (f := fun entry => Mark.mk scope entry.1 entry.2)
      hmem))

/-- A key of the innermost scope is looked up in the layer of that scope. -/
theorem get?_mark (h : table.Layered scope outer layer frames) (signature : Signature)
    (hname : IsIdentifier signature.1) :
    (table.get? (Symbol.keyAt scope signature)).map Symbol.mark =
      (layer.lookup signature).map fun defined => ⟨scope, signature, defined⟩ := by
  rw [← lookup_marks layer h.isIdentifier_of_mem hname, SymbolTable.get?, ← lookup_map_snd, h.entries,
    List.map_append, h.lookup_outer hname fun _ hmem => hmem]

theorem get?_isSome (h : table.Layered scope outer layer frames) (signature : Signature)
    (hname : IsIdentifier signature.1) :
    (table.get? (Symbol.keyAt scope signature)).isSome = (layer.lookup signature).isSome := by
  have hmark := congrArg Option.isSome (h.get?_mark signature hname)
  rwa [Option.isSome_map, Option.isSome_map] at hmark

/-! ## Inserting and completing -/

variable {symbol : Symbol}

theorem insert_of_taken (h : table.Layered scope outer layer frames) (hscope : symbol.scope = scope)
    (hname : IsIdentifier symbol.name) (htaken : (layer.lookup symbol.signature).isSome = true) :
    table.insert symbol = .error ⟨.duplicateSymbol symbol.name, symbol.line⟩ := by
  have hsome := h.get?_isSome symbol.signature hname
  subst hscope
  rw [SymbolTable.insert, Symbol.key_eq_keyAt, hsome, htaken]
  rfl

theorem insert_of_free (h : table.Layered scope outer layer frames) (hscope : symbol.scope = scope)
    (hname : IsIdentifier symbol.name) (hfree : layer.lookup symbol.signature = none) :
    ∃ table', table.insert symbol = .ok table' ∧
      table'.Layered scope outer (layer ++ [(symbol.signature, symbol.defined)]) frames := by
  have hsome := h.get?_isSome symbol.signature hname
  subst hscope
  rw [hfree] at hsome
  refine ⟨_, by rw [SymbolTable.insert, Symbol.key_eq_keyAt, hsome]; rfl, ?_⟩
  constructor
  · simp only [List.map_append, h.entries, Layer.marks, List.append_assoc]
    rfl
  · exact h.enclosing
  · intro mark hmark
    rw [Layer.marks, List.map_append, ← List.append_assoc] at hmark
    rcases List.mem_append.mp hmark with hmark | hmark
    · exact h.names mark hmark
    · rw [List.map_singleton, List.mem_singleton] at hmark
      rw [hmark]
      exact hname
  · have hnew : symbol.signature ∉ layer.map (·.1) := by
      intro hmem
      obtain ⟨entry, hentry, hsame⟩ := List.mem_map.mp hmem
      have hother := List.lookup_eq_none_iff.mp hfree entry hentry
      rw [hsame, bne_self_eq_false] at hother
      cases hother
    rw [List.map_append, List.map_singleton, ← List.concat_eq_append]
    exact List.Nodup.concat hnew h.distinct
  · dsimp only
    rw [h.frames_eq]
    cases frames with
    | none => rfl
    | some frames => simp [Layer.keys]

/-- A change that keeps what decides about clashes changes nothing here. -/
theorem modify (h : table.Layered scope outer layer frames) (key : String)
    {change : Symbol → Symbol} (hchange : ∀ symbol, (change symbol).mark = symbol.mark) :
    (table.modify key change).Layered scope outer layer frames := by
  refine ⟨?_, h.enclosing, h.names, h.distinct, h.frames_eq⟩
  rw [← h.entries, SymbolTable.modify, List.map_map]
  apply List.map_congr_left
  intro entry _
  rw [Function.comp_apply]
  split
  · rw [hchange]
  · rfl

theorem map_fst_complete (layer : Layer) (signature : Signature) :
    (layer.complete signature).map (·.1) = layer.map (·.1) := by
  rw [Layer.complete, List.map_map]
  apply List.map_congr_left
  intro entry _
  rw [Function.comp_apply]
  split <;> rfl

theorem keys_complete (layer : Layer) (signature : Signature) :
    (layer.complete signature).keys scope = layer.keys scope := by
  have hmap := congrArg (List.map (Symbol.keyAt scope)) (map_fst_complete layer signature)
  rw [List.map_map, List.map_map] at hmap
  exact congrArg List.reverse hmap

/-- A pair of a key and a mark after the symbol under a key has become defined. -/
def completeMark (key : String) (entry : String × Mark) : String × Mark :=
  if entry.1 = key then (entry.1, { entry.2 with defined := true }) else entry

theorem map_mark_modify (table : SymbolTable) (key : String) {change : Symbol → Symbol}
    (hchange : ∀ symbol, (change symbol).mark = { symbol.mark with defined := true }) :
    (table.modify key change).entries.map (fun entry => (entry.1, entry.2.mark)) =
      (table.entries.map fun entry => (entry.1, entry.2.mark)).map (completeMark key) := by
  rw [SymbolTable.modify, List.map_map, List.map_map]
  apply List.map_congr_left
  intro entry _
  by_cases hkey : entry.1 = key
  · simp [completeMark, hkey, hchange]
  · simp [completeMark, hkey]

theorem map_marks_complete (hlayer : ∀ entry ∈ layer, IsIdentifier entry.1.1)
    (hname : IsIdentifier signature.1) :
    ((layer.marks scope).map fun mark => (mark.key, mark)).map
        (completeMark (Symbol.keyAt scope signature)) =
      ((layer.complete signature).marks scope).map fun mark => (mark.key, mark) := by
  rw [Layer.marks, Layer.marks, Layer.complete, List.map_map, List.map_map, List.map_map,
    List.map_map]
  apply List.map_congr_left
  intro entry hentry
  have hkey : Symbol.keyAt scope entry.1 = Symbol.keyAt scope signature ↔ entry.1 = signature :=
    Symbol.keyAt_inj (hlayer entry hentry) hname
  by_cases hsame : entry.1 = signature
  · simp [completeMark, Mark.key, hsame]
  · simp [completeMark, Mark.key, hsame, hkey]

/-- A declared symbol becomes defined. -/
theorem complete (h : table.Layered scope outer layer frames) (signature : Signature)
    (hname : IsIdentifier signature.1) {change : Symbol → Symbol}
    (hchange : ∀ symbol, (change symbol).mark = { symbol.mark with defined := true }) :
    (table.modify (Symbol.keyAt scope signature) change).Layered scope outer
      (layer.complete signature) frames := by
  constructor
  · rw [map_mark_modify table _ hchange, h.entries, List.map_append, List.map_append,
      List.map_append, map_marks_complete h.isIdentifier_of_mem hname]
    congr 1
    rw [List.map_map]
    apply List.map_congr_left
    intro mark hmark
    exact if_neg (h.key_ne hmark hname)
  · exact h.enclosing
  · intro mark hmark
    rcases List.mem_append.mp hmark with hmark | hmark
    · exact h.names mark (List.mem_append_left _ hmark)
    · obtain ⟨entry, hentry, rfl⟩ := List.mem_map.mp hmark
      have hfirst := List.mem_map_of_mem (f := (·.1)) hentry
      rw [map_fst_complete] at hfirst
      obtain ⟨other, hother, hsame⟩ := List.mem_map.mp hfirst
      rw [← hsame]
      exact h.isIdentifier_of_mem other hother
  · rw [map_fst_complete]
    exact h.distinct
  · rw [SymbolTable.modify, h.frames_eq, keys_complete]

/-! ## Declaring and defining -/

/-- A declaration never fails, and defines nothing. -/
theorem declare (h : table.Layered scope outer layer frames) (hscope : symbol.scope = scope)
    (hname : IsIdentifier symbol.name) (hundefined : symbol.defined = false) :
    ∃ table' layer', Collector.declare table symbol = .ok table' ∧
      table'.Layered scope outer layer' frames ∧
      ∀ other, Layer.Defines layer' other ↔ layer.Defines other := by
  have hsome := h.get?_isSome symbol.signature hname
  rw [Collector.declare, Symbol.key_eq_keyAt, hscope, hsome]
  cases hlookup : layer.lookup symbol.signature with
  | some defined => exact ⟨table, layer, rfl, h, fun _ => Iff.rfl⟩
  | none =>
    obtain ⟨table', hinsert, hlayered⟩ := h.insert_of_free hscope hname hlookup
    refine ⟨table', _, hinsert, hlayered, fun other => ?_⟩
    rw [Layer.defines_append_singleton hlookup, hundefined]
    simp

theorem define_of_defined (h : table.Layered scope outer layer frames)
    (hscope : symbol.scope = scope) (hname : IsIdentifier symbol.name)
    (hdefined : layer.Defines symbol.signature) :
    Collector.define table symbol = .error ⟨.duplicateSymbol symbol.name, symbol.line⟩ := by
  have hmark := h.get?_mark symbol.signature hname
  rw [hdefined, Option.map_some, Option.map_eq_some_iff] at hmark
  obtain ⟨existing, hget, hexisting⟩ := hmark
  have hdef : existing.defined = true := congrArg Mark.defined hexisting
  rw [Collector.define, Symbol.key_eq_keyAt, hscope, hget]
  exact if_pos hdef

/-- A signature that is not defined can be, whether or not it was declared. -/
theorem define_of_not_defined (h : table.Layered scope outer layer frames)
    (hscope : symbol.scope = scope) (hname : IsIdentifier symbol.name)
    (hundefined : ¬ layer.Defines symbol.signature) :
    ∃ table' layer', Collector.define table symbol = .ok table' ∧
      table'.Layered scope outer layer' frames ∧
      ∀ other, Layer.Defines layer' other ↔ layer.Defines other ∨ other = symbol.signature := by
  have hmark := h.get?_mark symbol.signature hname
  subst hscope
  rw [Collector.define, Symbol.key_eq_keyAt]
  cases hlookup : layer.lookup symbol.signature with
  | none =>
    rw [hlookup, Option.map_none, Option.map_eq_none_iff] at hmark
    obtain ⟨table', hinsert, hlayered⟩ : ∃ table',
        table.insert { symbol with defined := true } = .ok table' ∧
          table'.Layered symbol.scope outer (layer ++ [(symbol.signature, true)]) frames :=
      h.insert_of_free rfl hname hlookup
    rw [hmark]
    refine ⟨table', _, hinsert, hlayered, fun other => ?_⟩
    rw [Layer.defines_append_singleton hlookup]
    simp
  | some defined =>
    have hfalse : defined = false := by
      rw [Layer.Defines, hlookup] at hundefined
      simpa using hundefined
    rw [hlookup, Option.map_some, Option.map_eq_some_iff] at hmark
    obtain ⟨existing, hget, hexisting⟩ := hmark
    have hdef : ¬ existing.defined = true := by
      rw [show existing.defined = defined from congrArg Mark.defined hexisting, hfalse]
      decide
    rw [hget]
    refine ⟨_, _, if_neg hdef, h.complete symbol.signature hname fun _ => rfl, fun other => ?_⟩
    exact Layer.defines_complete (by rw [hlookup]; rfl)

/-! ## Opening and closing a scope -/

theorem enterScope (h : table.Layered scope outer layer frames) (name : String) :
    table.enterScope.Layered (scope ++ [name]) (outer ++ layer.marks scope) []
      (some table.frames) := by
  constructor
  · simpa [SymbolTable.enterScope, Layer.marks] using h.entries
  · intro mark hmark
    have henclosed : mark.scope <+: scope := by
      rcases List.mem_append.mp hmark with hmark | hmark
      · exact (h.enclosing mark hmark).1
      · obtain ⟨entry, -, rfl⟩ := List.mem_map.mp hmark
        exact List.prefix_refl scope
    refine ⟨henclosed.trans (List.prefix_append scope [name]), fun hsame => ?_⟩
    have hlength := henclosed.length_le
    rw [hsame, List.length_append, List.length_singleton] at hlength
    omega
  · simpa [Layer.marks] using h.names
  · exact List.nodup_nil
  · rfl

/-- Closing a scope restores the layer around it. -/
theorem exitScope {after : SymbolTable} {name : String} {inside : Layer}
    (h : table.Layered scope outer layer frames)
    (hafter : after.Layered (scope ++ [name]) (outer ++ layer.marks scope) inside
      (some table.frames)) : after.exitScope.2.Layered scope outer layer frames := by
  have hexit : after.exitScope.2 =
      { entries := after.entries.filter fun entry => !(inside.keys (scope ++ [name])).contains entry.1,
        frames := table.frames } := by
    rw [SymbolTable.exitScope, hafter.frames_eq]
    rfl
  rw [hexit]
  refine ⟨?_, h.enclosing, h.names, h.distinct, h.frames_eq⟩
  have hpush : (after.entries.filter fun entry =>
      !(inside.keys (scope ++ [name])).contains entry.1).map (fun entry => (entry.1, entry.2.mark)) =
      (after.entries.map fun entry => (entry.1, entry.2.mark)).filter fun entry =>
        !(inside.keys (scope ++ [name])).contains entry.1 := by
    rw [List.filter_map]
    rfl
  have hkept : ∀ mark ∈ outer ++ layer.marks scope,
      mark.key ∉ inside.keys (scope ++ [name]) := by
    intro mark hmark hkey
    rw [Layer.keys, List.mem_reverse] at hkey
    obtain ⟨entry, hentry, hsame⟩ := List.mem_map.mp hkey
    exact hafter.key_ne hmark (hafter.isIdentifier_of_mem entry hentry) hsame.symm
  rw [hpush, hafter.entries, List.map_append, List.filter_append, List.filter_eq_self.mpr,
    List.filter_eq_nil_iff.mpr, List.append_nil]
  · intro entry hentry
    obtain ⟨mark, hmark, rfl⟩ := List.mem_map.mp hentry
    obtain ⟨entry, hinside, rfl⟩ := List.mem_map.mp hmark
    have hkey : Symbol.keyAt (scope ++ [name]) entry.1 ∈ inside.keys (scope ++ [name]) :=
      List.mem_reverse.mpr (List.mem_map.mpr ⟨entry, hinside, rfl⟩)
    simpa [Mark.key] using hkey
  · intro entry hentry
    obtain ⟨mark, hmark, rfl⟩ := List.mem_map.mp hentry
    simpa using hkept mark hmark

end SymbolTable.Layered

end SinFrontend
