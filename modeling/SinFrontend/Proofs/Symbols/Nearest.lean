import Mathlib.Data.List.Infix
import SinFrontend.Symbol.Table

/-!
# What a name means in a scope

A name can mean any symbol of that name whose scope encloses the scope where it is used, or is it.
Looking the name up goes through the enclosing scopes from the inside to the outside, and takes the
earliest symbol of the first one that has any.

* `SymbolTable.Means`: a symbol that a name can mean in a scope.
* `SymbolTable.Nearest`: one of them that lies innermost, and on the first line there.
* `find?_eq_some_iff_nearest`: looking up finds the nearest symbol, if there is any that the name can
  mean, and does not depend on the order in which the table keeps its symbols.
-/

namespace SinFrontend

/-! ## Searching from the inside to the outside -/

/-- Searching the numbers up to a bound from above finds the greatest one that has a result. -/
theorem findSome?_reverse_range {β : Type} (f : ℕ → Option β) (bound : ℕ) (b : β) :
    (List.range (bound + 1)).reverse.findSome? f = some b ↔
      ∃ n ≤ bound, f n = some b ∧ ∀ m ≤ bound, n < m → f m = none := by
  induction bound with
  | zero => simp
  | succ bound ih =>
    rw [List.range_succ, List.reverse_append, List.reverse_singleton, List.singleton_append,
      List.findSome?_cons]
    cases hlast : f (bound + 1) with
    | some other =>
      constructor
      · rintro ⟨⟩
        exact ⟨bound + 1, le_rfl, hlast, fun m hm hlt => absurd hm (Nat.not_le.mpr hlt)⟩
      · rintro ⟨n, hn, hfound, hnone⟩
        rcases Nat.lt_or_ge n (bound + 1) with hlt | hge
        · rw [hnone (bound + 1) le_rfl hlt] at hlast
          cases hlast
        · rw [Nat.le_antisymm hn hge, hlast] at hfound
          exact hfound
    | none =>
      rw [ih]
      constructor
      · rintro ⟨n, hn, hfound, hnone⟩
        refine ⟨n, Nat.le_succ_of_le hn, hfound, fun m hm hlt => ?_⟩
        rcases Nat.lt_or_ge m (bound + 1) with hm' | hge
        · exact hnone m (Nat.le_of_lt_succ hm') hlt
        · rwa [Nat.le_antisymm hm hge]
      · rintro ⟨n, hn, hfound, hnone⟩
        have hne : n ≠ bound + 1 := by
          rintro rfl
          rw [hlast] at hfound
          cases hfound
        exact ⟨n, by omega, hfound, fun m hm => hnone m (Nat.le_succ_of_le hm)⟩

namespace SymbolTable

/-! ## The earliest symbol -/

theorem earliest?_eq_none_iff {symbols : List Symbol} : earliest? symbols = none ↔ symbols = [] := by
  cases symbols with
  | nil => exact iff_of_true rfl rfl
  | cons symbol rest =>
    refine iff_of_false (fun hnone => ?_) (List.cons_ne_nil symbol rest)
    rw [earliest?] at hnone
    split at hnone
    · cases hnone
    · split at hnone <;> cases hnone

theorem line_le_of_earliest? {symbols : List Symbol} {symbol : Symbol}
    (h : earliest? symbols = some symbol) :
    symbol ∈ symbols ∧ ∀ other ∈ symbols, symbol.line ≤ other.line := by
  induction symbols generalizing symbol with
  | nil => cases h
  | cons first rest ih =>
    rw [earliest?] at h
    cases hrest : earliest? rest with
    | none =>
      rw [hrest] at h
      cases h
      rw [earliest?_eq_none_iff.mp hrest]
      exact ⟨List.mem_cons_self, by simp⟩
    | some other =>
      obtain ⟨hmem, hle⟩ := ih hrest
      rw [hrest] at h
      dsimp only at h
      split at h
      next hlt =>
        cases h
        refine ⟨List.mem_cons_of_mem _ hmem, ?_⟩
        rw [List.forall_mem_cons]
        exact ⟨Nat.le_of_lt hlt, hle⟩
      next hge =>
        cases h
        refine ⟨List.mem_cons_self, ?_⟩
        rw [List.forall_mem_cons]
        exact ⟨le_rfl, fun later hlater => (Nat.le_of_not_lt hge).trans (hle later hlater)⟩

/-! ## What a name can mean -/

/-- A symbol of a table that a name can mean in a scope. -/
structure Means (table : SymbolTable) (name : String) (scope : List String) (symbol : Symbol) :
    Prop where
  mem : symbol ∈ table.symbols
  name_eq : symbol.name = name
  accessible : symbol.isAccessibleFrom scope = true

/-- A symbol that a name can mean in a scope, such that no other lies further inside, and none of
    its own scope stands on an earlier line. -/
structure Nearest (table : SymbolTable) (name : String) (scope : List String) (symbol : Symbol) :
    Prop extends table.Means name scope symbol where
  innermost : ∀ other, table.Means name scope other → other.scope.length ≤ symbol.scope.length
  earliest : ∀ other, table.Means name scope other → other.scope = symbol.scope →
    symbol.line ≤ other.line

variable {table : SymbolTable} {name : String} {scope : List String} {symbol other : Symbol}

theorem Means.isPrefix (h : table.Means name scope symbol) : symbol.scope <+: scope :=
  List.isPrefixOf_iff_prefix.mp h.accessible

/-- The symbols that a name can mean, by how many of the enclosing scopes they lie in. -/
theorem means_iff :
    table.Means name scope symbol ↔ ∃ depth ≤ scope.length, symbol ∈ table.symbols.filter fun symbol =>
      symbol.name == name && symbol.scope == scope.take depth := by
  simp only [List.mem_filter, Bool.and_eq_true, beq_iff_eq]
  constructor
  · intro h
    exact ⟨symbol.scope.length, h.isPrefix.length_le, h.mem, h.name_eq,
      List.prefix_iff_eq_take.mp h.isPrefix⟩
  · rintro ⟨depth, -, hmem, hname, hscope⟩
    refine ⟨hmem, hname, List.isPrefixOf_iff_prefix.mpr ?_⟩
    rw [hscope]
    exact List.take_prefix depth scope

/-- Which symbol is nearest depends on nothing but what the name can mean. -/
theorem Nearest.of_means {table' : SymbolTable} (h : table.Nearest name scope symbol)
    (hmeans : ∀ symbol, table.Means name scope symbol ↔ table'.Means name scope symbol) :
    table'.Nearest name scope symbol :=
  ⟨(hmeans symbol).mp h.toMeans, fun other hother => h.innermost other ((hmeans other).mpr hother),
    fun other hother => h.earliest other ((hmeans other).mpr hother)⟩

theorem Nearest.scope_eq (h : table.Nearest name scope symbol) (h' : table.Nearest name scope other) :
    symbol.scope = other.scope := by
  have hlength := Nat.le_antisymm (h'.innermost symbol h.toMeans) (h.innermost other h'.toMeans)
  rw [List.prefix_iff_eq_take.mp h.isPrefix, List.prefix_iff_eq_take.mp h'.isPrefix, hlength]

/-- Nearest symbols stand in one scope, and on one line. -/
theorem Nearest.line_eq (h : table.Nearest name scope symbol) (h' : table.Nearest name scope other) :
    symbol.line = other.line :=
  Nat.le_antisymm (h.earliest other h'.toMeans (h.scope_eq h').symm)
    (h'.earliest symbol h.toMeans (h.scope_eq h'))

/-! ## Looking up -/

theorem isSome_find?_iff :
    (table.find? name scope).isSome = true ↔ ∃ symbol, table.Means name scope symbol := by
  rw [find?, List.findSome?_isSome_iff]
  simp only [List.mem_reverse, List.mem_range, Nat.lt_succ_iff, Option.isSome_iff_ne_none, ne_eq,
    earliest?_eq_none_iff, means_iff]
  constructor
  · rintro ⟨depth, hdepth, hfilter⟩
    obtain ⟨symbol, hmem⟩ := List.exists_mem_of_ne_nil _ hfilter
    exact ⟨symbol, depth, hdepth, hmem⟩
  · rintro ⟨symbol, depth, hdepth, hmem⟩
    exact ⟨depth, hdepth, List.ne_nil_of_mem hmem⟩

/-- What is found is nearest, whatever else is in the table. -/
theorem nearest_of_find? (h : table.find? name scope = some symbol) :
    table.Nearest name scope symbol := by
  obtain ⟨depth, hdepth, hfound, hnone⟩ := (findSome?_reverse_range _ _ _).mp h
  obtain ⟨hmem, hle⟩ := line_le_of_earliest? hfound
  have hscope : symbol.scope = scope.take depth := by
    have hform := (List.mem_filter.mp hmem).2
    simp only [Bool.and_eq_true, beq_iff_eq] at hform
    exact hform.2
  refine ⟨means_iff.mpr ⟨depth, hdepth, hmem⟩, fun other hother => ?_, fun other hother hsame => ?_⟩
  · -- no enclosing scope further inside has a symbol of the name
    by_contra hinside
    have hdeeper : depth < other.scope.length := by
      rw [hscope, List.length_take, Nat.min_eq_left hdepth] at hinside
      exact Nat.lt_of_not_le hinside
    have hempty := earliest?_eq_none_iff.mp (hnone _ hother.isPrefix.length_le hdeeper)
    refine List.ne_nil_of_mem (List.mem_filter.mpr ⟨hother.mem, ?_⟩) hempty
    simp only [hother.name_eq, ← List.prefix_iff_eq_take.mp hother.isPrefix, beq_self_eq_true,
      Bool.and_self]
  · refine hle other (List.mem_filter.mpr ⟨hother.mem, ?_⟩)
    simp only [hother.name_eq, hsame, hscope, beq_self_eq_true, Bool.and_self]

/-- No two symbols of a name share scope and line. -/
def Distinguishes (table : SymbolTable) (name : String) : Prop :=
  ∀ symbol ∈ table.symbols, ∀ other ∈ table.symbols, symbol.name = name → other.name = name →
    symbol.scope = other.scope → symbol.line = other.line → symbol = other

theorem find?_of_nearest (hdistinct : table.Distinguishes name)
    (h : table.Nearest name scope symbol) : table.find? name scope = some symbol := by
  obtain ⟨found, hfound⟩ := Option.isSome_iff_exists.mp (isSome_find?_iff.mpr ⟨symbol, h.toMeans⟩)
  have hnearest := nearest_of_find? hfound
  rw [hfound, hdistinct found hnearest.mem symbol h.mem hnearest.name_eq h.name_eq
    (hnearest.scope_eq h) (hnearest.line_eq h)]

/-- A name is looked up with success exactly if it can mean a symbol in the scope, and what is found
    is the nearest of these symbols. No two symbols of the name share scope and line, so the order
    in which a table keeps its symbols plays no part. -/
theorem find?_eq_some_iff_nearest (hdistinct : table.Distinguishes name) (scope : List String) :
    ((table.find? name scope).isSome = true ↔ ∃ symbol, table.Means name scope symbol) ∧
    (∀ symbol, table.find? name scope = some symbol ↔ table.Nearest name scope symbol) ∧
    ∀ other : SymbolTable, (∀ symbol, symbol ∈ other.symbols ↔ symbol ∈ table.symbols) →
      other.find? name scope = table.find? name scope := by
  have hfind : ∀ symbol, table.find? name scope = some symbol ↔ table.Nearest name scope symbol :=
    fun symbol => ⟨nearest_of_find?, find?_of_nearest hdistinct⟩
  refine ⟨isSome_find?_iff, hfind, fun other hsame => Option.ext fun symbol => ?_⟩
  have hdistinct' : other.Distinguishes name := fun first hfirst second hsecond =>
    hdistinct first ((hsame first).mp hfirst) second ((hsame second).mp hsecond)
  have hmeans (symbol : Symbol) : other.Means name scope symbol ↔ table.Means name scope symbol :=
    ⟨fun h => ⟨(hsame symbol).mp h.mem, h.name_eq, h.accessible⟩,
      fun h => ⟨(hsame symbol).mpr h.mem, h.name_eq, h.accessible⟩⟩
  rw [hfind]
  exact ⟨fun h => (nearest_of_find? h).of_means hmeans,
    fun h => find?_of_nearest hdistinct' (h.of_means fun symbol => (hmeans symbol).symm)⟩

/-- Inside `main`, a name means the earlier one of its symbols there, and not the global one. -/
theorem find?_eq_some_iff_nearest_inner :
    let outside : Symbol :=
      { name := "x", scope := [], type := .ofKind .int .empty, kind := .variable, line := 1 }
    let later : Symbol := { outside with scope := ["main"], line := 3 }
    let earlier : Symbol := { later with type := .ofKind .bool .empty, line := 2 }
    let table : SymbolTable :=
      { entries := [outside, later, earlier].map fun symbol => (symbol.key, symbol) }
    table.Distinguishes "x" ∧ table.find? "x" ["main", "0"] = some earlier ∧
      table.Nearest "x" ["main", "0"] earlier := by
  intro outside later earlier table
  have hdistinct : table.Distinguishes "x" := by
    have hsymbols : table.symbols = [outside, later, earlier] := rfl
    rw [Distinguishes, hsymbols]
    simp [outside, later, earlier]
  have hfound : table.find? "x" ["main", "0"] = some earlier := rfl
  exact ⟨hdistinct, hfound,
    ((find?_eq_some_iff_nearest hdistinct ["main", "0"]).2.1 earlier).mp hfound⟩

end SymbolTable

end SinFrontend
