import Mathlib.Data.List.Forall2
import SinFrontend.DataType.Compatibility
import SinFrontend.Proofs.Types.Parts

/-!
# Compatibility of types is a preorder

Among regular types, a type may be used where it is expected, and what may be used in place of a
type may be used wherever that type may. References count for nothing: a type goes with the same
types whether or not it stands behind references. Behind the references two compatible types are
of the same kind, apart from a character that is used as a string, and what they contain is
compatible in turn. What pointers point to must obey the promotion rule as well.

* `QualitySet.acceptsPromotion_iff`: the promotion rule compares how far sets lock a value.
* `DataType.isCompatible_of_reference_left`, `DataType.isCompatible_of_reference_right`: references
  are transparent.
* `DataType.isCompatible_ptr`, `DataType.isCompatible_array`, `DataType.isCompatible_tuple`,
  `DataType.isCompatible_iff_of_simple`: what is compared behind the references.
* `DataType.isCompatible_preorder`: compatibility is reflexive and transitive, and layers of
  references change nothing.
-/

namespace SinFrontend

/-! ## Locked values -/

namespace QualitySet

/-- How far a set locks a value: not at all, as final, or as const. -/
def lock (set : QualitySet) : ℕ :=
  if set.const then 2 else if set.final then 1 else 0

/-- A source may be stored behind a target that locks the value at least as far. -/
theorem acceptsPromotion_iff {target source : QualitySet} :
    target.acceptsPromotion source = true ↔ source.lock ≤ target.lock := by
  unfold acceptsPromotion lock
  cases target.const <;> cases target.final <;> cases source.const <;> cases source.final <;>
    decide

theorem acceptsPromotion_refl (set : QualitySet) : set.acceptsPromotion set = true :=
  acceptsPromotion_iff.mpr (Nat.le_refl _)

theorem acceptsPromotion_trans {target middle source : QualitySet}
    (h : target.acceptsPromotion middle = true) (h' : middle.acceptsPromotion source = true) :
    target.acceptsPromotion source = true := by
  rw [acceptsPromotion_iff] at *
  exact Nat.le_trans h' h

/-- What locks a source locks the target. -/
theorem locked_of_acceptsPromotion {target source : QualitySet}
    (h : target.acceptsPromotion source = true)
    (hsource : source.const = true ∨ source.final = true) :
    target.const = true ∨ target.final = true := by
  unfold acceptsPromotion at h
  grind

end QualitySet

namespace DataType

variable {a b c target source : DataType}

/-! ## References -/

theorem isCompatible_of_raw (a : DataType) (hb : b.kind = .raw) : a.isCompatible b = true := by
  obtain ⟨kind, contained, qualities, length, structName⟩ := a
  unfold isCompatible
  simp [hb]

theorem behindReferences?_eq_some (hb : b.kind ≠ .reference) : b.behindReferences? = some b := by
  obtain ⟨kind, contained, qualities, length, structName⟩ := b
  cases kind with
  | reference => exact absurd rfl hb
  | _ => rfl

theorem behindReferences?_of_reference (hb : b.kind = .reference)
    (hcontained : b.contained = [target]) :
    b.behindReferences? = target.behindReferences? := by
  obtain ⟨kind, contained, qualities, length, structName⟩ := b
  obtain rfl : kind = .reference := hb
  obtain rfl : contained = [target] := hcontained
  rfl

/-- An expected reference expects what it refers to. -/
theorem isCompatible_of_reference_left (ha : a.kind = .reference)
    (hcontained : a.contained = [target]) (b : DataType) :
    a.isCompatible b = target.isCompatible b := by
  by_cases hraw : b.kind = .raw
  · rw [isCompatible_of_raw a hraw, isCompatible_of_raw target hraw]
  · obtain ⟨kind, contained, qualities, length, structName⟩ := a
    obtain rfl : kind = .reference := ha
    obtain rfl : contained = [target] := hcontained
    simp [isCompatible, hraw]

/-- A given reference gives what it refers to. -/
theorem isCompatible_of_reference_right (ha : a.Regular) (hb : b.kind = .reference)
    (hcontained : b.contained = [target]) (htarget : target.kind ≠ .raw) :
    a.isCompatible b = a.isCompatible target := by
  induction a using induction_on_parts with
  | step a ih =>
    by_cases hkind : a.kind = .reference
    · obtain ⟨part, hpart, hregular⟩ := ha.exists_part (.inr (.inl hkind))
      rw [isCompatible_of_reference_left hkind hpart, isCompatible_of_reference_left hkind hpart]
      exact ih part (by simp [hpart]) hregular
    · have hbehind := behindReferences?_of_reference hb hcontained
      obtain ⟨kind, contained, qualities, length, structName⟩ := a
      dsimp only at hkind
      unfold isCompatible
      simp [hbehind, hb, htarget, hkind]

/-- Behind its references, a regular type is one that goes with the same types and is no reference
    itself. -/
theorem Regular.exists_value (ha : a.Regular) :
    ∃ value : DataType, value.Regular ∧ value.kind ≠ .reference ∧
      (∀ b, a.isCompatible b = value.isCompatible b) ∧
      ∀ b : DataType, b.Regular → b.isCompatible a = b.isCompatible value := by
  induction a using induction_on_parts with
  | step a ih =>
    by_cases hkind : a.kind = .reference
    · obtain ⟨part, hpart, hregular⟩ := ha.exists_part (.inr (.inl hkind))
      obtain ⟨value, hvalue, hbehind, hleft, hright⟩ := ih part (by simp [hpart]) hregular
      refine ⟨value, hvalue, hbehind, fun b => ?_, fun b hb => ?_⟩
      · rw [isCompatible_of_reference_left hkind hpart, hleft]
      · rw [isCompatible_of_reference_right hb hkind hpart hregular.kind_ne_raw, hright b hb]
    · exact ⟨a, ha, hkind, fun _ => rfl, fun _ _ => rfl⟩

/-! ## Behind the references -/

/-- Pointers are compatible if what they point to is, and may be promoted. -/
theorem isCompatible_ptr (ha : a.kind = .ptr) (hb : b.kind = .ptr)
    (htarget : a.contained = [target]) (hsource : b.contained = [source]) :
    a.isCompatible b =
      (target.isCompatible source && target.qualities.acceptsPromotion source.qualities) := by
  have hbehind := behindReferences?_eq_some (b := b) (by simp [hb])
  obtain ⟨kind, contained, qualities, length, structName⟩ := a
  obtain rfl : kind = .ptr := ha
  obtain rfl : contained = [target] := htarget
  simp [isCompatible, hbehind, hb, hsource]

/-- Arrays are compatible if their elements are. -/
theorem isCompatible_array (ha : a.kind = .array) (hb : b.kind = .array)
    (htarget : a.contained = [target]) (hsource : b.contained = [source]) :
    a.isCompatible b = target.isCompatible source := by
  have hbehind := behindReferences?_eq_some (b := b) (by simp [hb])
  obtain ⟨kind, contained, qualities, length, structName⟩ := a
  obtain rfl : kind = .array := ha
  obtain rfl : contained = [target] := htarget
  simp [isCompatible, hbehind, hb, hsource]

theorem areCompatible_iff {targets sources : List DataType} :
    areCompatible targets sources = true ↔
      List.Forall₂ (fun target source => target.isCompatible source = true) targets sources := by
  induction targets generalizing sources with
  | nil => cases sources <;> simp [areCompatible]
  | cons target targets ih => cases sources <;> simp [areCompatible, ih]

/-- Tuples are compatible if their members are, one by one. -/
theorem isCompatible_tuple (ha : a.kind = .tuple) (hb : b.kind = .tuple) :
    a.isCompatible b = true ↔
      List.Forall₂ (fun target source => target.isCompatible source = true)
        a.contained b.contained := by
  have hbehind := behindReferences?_eq_some (b := b) (by simp [hb])
  obtain ⟨kind, contained, qualities, length, structName⟩ := a
  obtain rfl : kind = .tuple := ha
  rw [isCompatible.eq_def]
  simp [hbehind, hb, areCompatible_iff]

/-- Behind the references, compatible types are of the same kind, or a character is used as a
    string. -/
theorem kind_of_isCompatible (ha : a.Regular) (hb : b.Regular) (ha' : a.kind ≠ .reference)
    (hb' : b.kind ≠ .reference) (h : a.isCompatible b = true) :
    a.kind = b.kind ∨ a.kind = .string ∧ b.kind = .char := by
  have hbehind := behindReferences?_eq_some hb'
  have hraw := ha.kind_ne_raw
  have hraw' := hb.kind_ne_raw
  obtain ⟨kind, contained, qualities, length, structName⟩ := a
  dsimp only at ha' hraw ⊢
  unfold isCompatible at h
  simp only [hbehind] at h
  cases kind <;> cases hkind : b.kind <;> simp_all

/-- The kinds of types behind which compatibility does not look. -/
def Simple (kind : PrimaryKind) : Prop :=
  kind ≠ .ptr ∧ kind ≠ .array ∧ kind ≠ .tuple

theorem kind_cases (kind : PrimaryKind) :
    kind = .ptr ∨ kind = .array ∨ kind = .tuple ∨ Simple kind := by
  unfold Simple
  tauto

/-- For a type of a simple kind, its kind is all that counts. -/
theorem isCompatible_iff_of_simple (ha : a.Regular) (hb : b.Regular) (ha' : a.kind ≠ .reference)
    (hb' : b.kind ≠ .reference) (hsimple : Simple b.kind) :
    a.isCompatible b = true ↔ a.kind = b.kind ∨ a.kind = .string ∧ b.kind = .char := by
  refine ⟨kind_of_isCompatible ha hb ha' hb', fun h => ?_⟩
  have hbehind := behindReferences?_eq_some hb'
  have hraw := hb.kind_ne_raw
  obtain ⟨hptr, harray, htuple⟩ := hsimple
  obtain ⟨kind, contained, qualities, length, structName⟩ := a
  dsimp only at ha' h
  unfold isCompatible
  simp only [hbehind]
  rcases h with rfl | ⟨rfl, hchar⟩
  · cases hkind : b.kind <;> simp_all
  · simp [hchar]

/-! ## Reflexivity -/

theorem isCompatible_refl (ha : a.Regular) : a.isCompatible a = true := by
  induction a using induction_on_parts with
  | step a ih =>
    by_cases hreference : a.kind = .reference
    · obtain ⟨part, hpart, hregular⟩ := ha.exists_part (.inr (.inl hreference))
      rw [isCompatible_of_reference_left hreference hpart,
        isCompatible_of_reference_right hregular hreference hpart hregular.kind_ne_raw]
      exact ih part (by simp [hpart]) hregular
    rcases kind_cases a.kind with hkind | hkind | hkind | hsimple
    · obtain ⟨part, hpart, hregular⟩ := ha.exists_part (.inl hkind)
      rw [isCompatible_ptr hkind hkind hpart hpart, Bool.and_eq_true]
      exact ⟨ih part (by simp [hpart]) hregular, part.qualities.acceptsPromotion_refl⟩
    · obtain ⟨part, hpart, hregular⟩ := ha.exists_part (.inr (.inr hkind))
      rw [isCompatible_array hkind hkind hpart hpart]
      exact ih part (by simp [hpart]) hregular
    · rw [isCompatible_tuple hkind hkind, List.forall₂_same]
      exact fun part hpart => ih part hpart (ha.of_mem hpart)
    · exact (isCompatible_iff_of_simple ha ha hreference hreference hsimple).mpr (.inl rfl)

/-! ## Transitivity -/

/-- What is compatible with a type may be used wherever the type may. -/
def Chains (middle : DataType) : Prop :=
  ∀ target source : DataType, target.Regular → source.Regular →
    target.isCompatible middle = true → middle.isCompatible source = true →
    target.isCompatible source = true

theorem forall₂_of_chains {targets middles sources : List DataType}
    (htargets : ∀ target ∈ targets, target.Regular) (hsources : ∀ source ∈ sources, source.Regular)
    (hmiddles : ∀ middle ∈ middles, middle.Chains)
    (h : List.Forall₂ (fun target middle => target.isCompatible middle = true) targets middles)
    (h' : List.Forall₂ (fun middle source => middle.isCompatible source = true) middles sources) :
    List.Forall₂ (fun target source => target.isCompatible source = true) targets sources := by
  induction h generalizing sources with
  | nil =>
    cases h'
    exact .nil
  | cons htarget _ ih =>
    cases h' with
    | cons hsource hrest =>
      rw [List.forall_mem_cons] at htargets hsources hmiddles
      exact .cons (hmiddles.1 _ _ htargets.1 hsources.1 htarget hsource)
        (ih htargets.2 hsources.2 hmiddles.2 hrest)

/-- Three types, none of them a reference: what the middle one contains carries the comparison of
    what the outer ones contain. -/
theorem isCompatible_trans_values (ha : a.Regular) (hb : b.Regular) (hc : c.Regular)
    (ha' : a.kind ≠ .reference) (hb' : b.kind ≠ .reference) (hc' : c.kind ≠ .reference)
    (hparts : ∀ part ∈ b.contained, part.Chains) (hab : a.isCompatible b = true)
    (hbc : b.isCompatible c = true) : a.isCompatible c = true := by
  have hkinds := kind_of_isCompatible ha hb ha' hb' hab
  have hkinds' := kind_of_isCompatible hb hc hb' hc' hbc
  rcases kind_cases b.kind with hkind | hkind | hkind | hsimple
  · have hakind : a.kind = .ptr := by simp_all
    have hckind : c.kind = .ptr := by simp_all
    obtain ⟨target, htarget, hta⟩ := ha.exists_part (.inl hakind)
    obtain ⟨middle, hmiddle, -⟩ := hb.exists_part (.inl hkind)
    obtain ⟨source, hsource, hso⟩ := hc.exists_part (.inl hckind)
    rw [isCompatible_ptr hakind hkind htarget hmiddle, Bool.and_eq_true] at hab
    rw [isCompatible_ptr hkind hckind hmiddle hsource, Bool.and_eq_true] at hbc
    rw [isCompatible_ptr hakind hckind htarget hsource, Bool.and_eq_true]
    exact ⟨hparts middle (by simp [hmiddle]) target source hta hso hab.1 hbc.1,
      QualitySet.acceptsPromotion_trans hab.2 hbc.2⟩
  · have hakind : a.kind = .array := by simp_all
    have hckind : c.kind = .array := by simp_all
    obtain ⟨target, htarget, hta⟩ := ha.exists_part (.inr (.inr hakind))
    obtain ⟨middle, hmiddle, -⟩ := hb.exists_part (.inr (.inr hkind))
    obtain ⟨source, hsource, hso⟩ := hc.exists_part (.inr (.inr hckind))
    rw [isCompatible_array hakind hkind htarget hmiddle] at hab
    rw [isCompatible_array hkind hckind hmiddle hsource] at hbc
    rw [isCompatible_array hakind hckind htarget hsource]
    exact hparts middle (by simp [hmiddle]) target source hta hso hab hbc
  · have hakind : a.kind = .tuple := by simp_all
    have hckind : c.kind = .tuple := by simp_all
    rw [isCompatible_tuple hakind hkind] at hab
    rw [isCompatible_tuple hkind hckind] at hbc
    rw [isCompatible_tuple hakind hckind]
    exact forall₂_of_chains (fun _ => ha.of_mem) (fun _ => hc.of_mem) hparts hab hbc
  · have hcsimple : Simple c.kind := by
      rcases hkinds' with hsame | ⟨-, hchar⟩
      · rwa [← hsame]
      · rw [hchar]
        simp [Simple]
    rw [isCompatible_iff_of_simple ha hc ha' hc' hcsimple]
    grind

theorem Regular.chains (hb : b.Regular) : b.Chains := by
  induction b using induction_on_parts with
  | step b ih =>
    intro a c ha hc hab hbc
    by_cases hreference : b.kind = .reference
    · obtain ⟨part, hpart, hregular⟩ := hb.exists_part (.inr (.inl hreference))
      rw [isCompatible_of_reference_right ha hreference hpart hregular.kind_ne_raw] at hab
      rw [isCompatible_of_reference_left hreference hpart] at hbc
      exact ih part (by simp [hpart]) hregular a c ha hc hab hbc
    · -- The outer types are compared as what stands behind their references.
      obtain ⟨target, htarget, htarget', hleft, -⟩ := ha.exists_value
      obtain ⟨source, hsource, hsource', -, hright⟩ := hc.exists_value
      rw [hleft] at hab ⊢
      rw [hright b hb] at hbc
      rw [hright target htarget]
      exact isCompatible_trans_values htarget hb hsource htarget' hreference hsource'
        (fun part hpart => ih part hpart (hb.of_mem hpart)) hab hbc

/-! ## Layers of references -/

/-- A type behind layers of references, the outermost first. -/
def underReferences (type : DataType) (layers : List QualitySet) : DataType :=
  layers.foldr (fun qualities target => referenceTo target qualities) type

theorem isCompatible_underReferences_left (a b : DataType) (layers : List QualitySet) :
    (a.underReferences layers).isCompatible b = a.isCompatible b := by
  induction layers with
  | nil => rfl
  | cons qualities layers ih => rw [← ih, underReferences, List.foldr_cons, ← underReferences,
      isCompatible_of_reference_left rfl rfl]

theorem kind_underReferences_ne_raw (hb : b.Regular) (layers : List QualitySet) :
    (b.underReferences layers).kind ≠ .raw := by
  cases layers with
  | nil => exact hb.kind_ne_raw
  | cons qualities layers => exact nofun

theorem isCompatible_underReferences_right (ha : a.Regular) (hb : b.Regular)
    (layers : List QualitySet) : a.isCompatible (b.underReferences layers) = a.isCompatible b := by
  induction layers with
  | nil => rfl
  | cons qualities layers ih => rw [← ih, underReferences, List.foldr_cons, ← underReferences,
      isCompatible_of_reference_right ha rfl rfl (kind_underReferences_ne_raw hb layers)]

/-- Compatibility of regular types is reflexive and transitive. A reference to a type and the type
    itself may stand for each other, and whether two types are compatible does not depend on the
    layers of references before either of them. -/
theorem isCompatible_preorder (ha : a.Regular) (hb : b.Regular) (hc : c.Regular) :
    a.isCompatible a = true ∧
    (a.isCompatible b = true → b.isCompatible c = true → a.isCompatible c = true) ∧
    (∀ qualities, (referenceTo a qualities).isCompatible a = true ∧
      a.isCompatible (referenceTo a qualities) = true) ∧
    ∀ layers layers', (a.underReferences layers).isCompatible (b.underReferences layers') =
      a.isCompatible b := by
  have hrefl := isCompatible_refl ha
  refine ⟨hrefl, hb.chains a c ha hc, fun qualities => ⟨?_, ?_⟩, fun layers layers' => ?_⟩
  · exact (isCompatible_underReferences_left a a [qualities]).trans hrefl
  · exact (isCompatible_underReferences_right ha ha [qualities]).trans hrefl
  · rw [isCompatible_underReferences_left, isCompatible_underReferences_right ha hb]

/-- A pointer to a const integer takes a reference to a pointer to a final one, which takes a
    pointer to a plain one. -/
theorem isCompatible_preorder_pointers :
    let target := pointerTo (ofKind .int { const := true }) .empty
    let middle := referenceTo (pointerTo (ofKind .int { final := true }) .empty) .empty
    let source := pointerTo (ofKind .int .empty) .empty
    target.Regular ∧ middle.Regular ∧ source.Regular ∧ target.isCompatible middle = true ∧
      middle.isCompatible source = true ∧ target.isCompatible source = true := by
  intro target middle source
  have htarget : target.Regular := (regular_ofKind (by decide) (by decide)).pointerTo (by decide)
  have hmiddle : middle.Regular :=
    ((regular_ofKind (by decide) (by decide)).pointerTo (by decide)).referenceTo (by decide)
  have hsource : source.Regular := (regular_ofKind (by decide) (by decide)).pointerTo (by decide)
  have hfirst : target.isCompatible middle = true := by decide
  have hsecond : middle.isCompatible source = true := by decide
  exact ⟨htarget, hmiddle, hsource, hfirst, hsecond,
    (isCompatible_preorder htarget hmiddle hsource).2.1 hfirst hsecond⟩

end DataType

end SinFrontend
