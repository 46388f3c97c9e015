import SinFrontend.Proofs.Types.Compatibility

/-!
# Promotion behind pointers

Two types can be walked through together: from pointers to what they point to, from arrays to their
elements, from tuples to their members, and from a reference on either side to what it refers to.
Compatibility is kept on the way. The promotion rule is asked for where a pointer is followed, and
nowhere else.

* `DataType.isCompatible_withQualities`: the outermost qualities of two types do not count when
  these are compared.
* `DataType.Corresponds`: the positions that are reached together.
* `DataType.Corresponds.isCompatible`: compatible types are compatible at every such position.
* `DataType.acceptsPromotion_of_pointers`: what compatible pointers point to obeys the promotion
  rule, at every depth.
* `DataType.not_acceptsPromotion_element`: the elements of arrays need not.
-/

namespace SinFrontend.DataType

variable {target source a b : DataType}

/-- The qualities of two types do not count when these are compared. It is the pointers before them
    that ask for the promotion rule, if there are any. -/
theorem isCompatible_withQualities (ha : a.Regular) (hb : b.Regular)
    (qualities qualities' : QualitySet) :
    isCompatible { a with qualities } { b with qualities := qualities' } = a.isCompatible b := by
  have hleft (c : DataType) : isCompatible { a with qualities } c = a.isCompatible c := by
    cases a
    rw [isCompatible.eq_def, isCompatible.eq_def]
  rw [hleft]
  by_cases hreference : b.kind = .reference
  · obtain ⟨part, hpart, hregular⟩ := hb.exists_part (.inr (.inl hreference))
    rw [isCompatible_of_reference_right (b := b) ha hreference hpart hregular.kind_ne_raw]
    exact isCompatible_of_reference_right ha hreference hpart hregular.kind_ne_raw
  · have hbehind := behindReferences?_eq_some hreference
    have hbehind' := behindReferences?_eq_some (b := { b with qualities := qualities' }) hreference
    obtain ⟨⟨kind, contained, _, length, structName⟩, -, hkind, hsame, -⟩ := ha.exists_value
    dsimp only at hkind
    rw [hsame, hsame, isCompatible.eq_def, isCompatible.eq_def]
    simp [hbehind, hbehind', hkind]

/-- The positions `a` in `target` and `b` in `source` that are reached by walking through both types
    together. -/
inductive Corresponds (target source : DataType) : DataType → DataType → Prop where
  | start : Corresponds target source target source
  | pointer {a b part other : DataType} (h : Corresponds target source a b) (ha : a.kind = .ptr)
      (hb : b.kind = .ptr) (hpart : a.contained = [part]) (hother : b.contained = [other]) :
      Corresponds target source part other
  | element {a b part other : DataType} (h : Corresponds target source a b) (ha : a.kind = .array)
      (hb : b.kind = .array) (hpart : a.contained = [part]) (hother : b.contained = [other]) :
      Corresponds target source part other
  | member {a b part other : DataType} (h : Corresponds target source a b) (ha : a.kind = .tuple)
      (hb : b.kind = .tuple) (hmember : (part, other) ∈ a.contained.zip b.contained) :
      Corresponds target source part other
  | expectedReference {a b part : DataType} (h : Corresponds target source a b)
      (ha : a.kind = .reference) (hpart : a.contained = [part]) : Corresponds target source part b
  | givenReference {a b other : DataType} (h : Corresponds target source a b)
      (hb : b.kind = .reference) (hother : b.contained = [other]) : Corresponds target source a other

/-- The positions that are reached by following a pointer, if both types stand behind pointers
    themselves. -/
def BehindPointers (target source a b : DataType) : Prop :=
  (a = target ∧ b = source) ∨
    ∃ pointer pointer', Corresponds target source pointer pointer' ∧
      pointer.kind = .ptr ∧ pointer'.kind = .ptr ∧
      pointer.contained = [a] ∧ pointer'.contained = [b]

theorem Corresponds.regular (hw : Corresponds target source a b) (ht : target.Regular)
    (hs : source.Regular) : a.Regular ∧ b.Regular := by
  induction hw with
  | start => exact ⟨ht, hs⟩
  | pointer _ _ _ hpart hother ih | element _ _ _ hpart hother ih =>
    exact ⟨ih.1.of_mem (by simp [hpart]), ih.2.of_mem (by simp [hother])⟩
  | member _ _ _ hmember ih =>
    obtain ⟨hpart, hother⟩ := List.of_mem_zip hmember
    exact ⟨ih.1.of_mem hpart, ih.2.of_mem hother⟩
  | expectedReference _ _ hpart ih => exact ⟨ih.1.of_mem (by simp [hpart]), ih.2⟩
  | givenReference _ _ hother ih => exact ⟨ih.1, ih.2.of_mem (by simp [hother])⟩

/-- Compatible types are compatible at all positions that correspond. -/
theorem Corresponds.isCompatible (hw : Corresponds target source a b) (ht : target.Regular)
    (hs : source.Regular) (h : target.isCompatible source = true) : a.isCompatible b = true := by
  induction hw with
  | start => exact h
  | pointer _ ha hb hpart hother ih =>
    rw [isCompatible_ptr ha hb hpart hother, Bool.and_eq_true] at ih
    exact ih.1
  | element _ ha hb hpart hother ih => rwa [isCompatible_array ha hb hpart hother] at ih
  | member _ ha hb hmember ih =>
    rw [isCompatible_tuple ha hb, List.forall₂_iff_zip] at ih
    exact ih.2 hmember
  | expectedReference _ ha hpart ih => rwa [isCompatible_of_reference_left ha hpart] at ih
  | givenReference hw hb hother ih =>
    obtain ⟨hregular, hreference⟩ := hw.regular ht hs
    rwa [isCompatible_of_reference_right hregular hb hother
      (hreference.of_mem (by simp [hother])).kind_ne_raw] at ih

/-- If a pointer may be used where another pointer is expected, the promotion rule holds between any
    two positions that are reached by following pointers. So a const or final value behind a pointer
    of the source is const or final behind the pointer of the target. -/
theorem acceptsPromotion_of_pointers (ht : target.Regular) (hs : source.Regular)
    {qualities qualities' : QualitySet}
    (h : (pointerTo target qualities).isCompatible (pointerTo source qualities') = true)
    (hbehind : BehindPointers target source a b) :
    a.qualities.acceptsPromotion b.qualities = true ∧
      (b.qualities.const = true ∨ b.qualities.final = true →
        a.qualities.const = true ∨ a.qualities.final = true) := by
  rw [isCompatible_ptr rfl rfl rfl rfl, Bool.and_eq_true] at h
  have hpromotion : a.qualities.acceptsPromotion b.qualities = true := by
    rcases hbehind with ⟨rfl, rfl⟩ | ⟨pointer, pointer', hw, hkind, hkind', hpart, hother⟩
    · exact h.2
    · have hpointers := hw.isCompatible ht hs h.1
      rw [isCompatible_ptr hkind hkind' hpart hother, Bool.and_eq_true] at hpointers
      exact hpointers.2
  exact ⟨hpromotion, QualitySet.locked_of_acceptsPromotion hpromotion⟩

/-- A pointer to an array of pointers to const integers takes one with final integers. -/
theorem acceptsPromotion_of_pointers_array :
    let expected := ofKind .int { const := true }
    let given := ofKind .int { final := true }
    let target := arrayOf (pointerTo expected .empty) .unspecified .empty
    let source := arrayOf (pointerTo given .empty) .unspecified .empty
    target.Regular ∧ source.Regular ∧
      (pointerTo target .empty).isCompatible (pointerTo source .empty) = true ∧
      BehindPointers target source expected given ∧
      expected.qualities.acceptsPromotion given.qualities = true := by
  intro expected given target source
  have htarget : target.Regular :=
    ((regular_ofKind (by decide) (by decide)).pointerTo (by decide)).arrayOf _ (by decide)
  have hsource : source.Regular :=
    ((regular_ofKind (by decide) (by decide)).pointerTo (by decide)).arrayOf _ (by decide)
  have hcompatible : (pointerTo target .empty).isCompatible (pointerTo source .empty) = true := by
    decide
  have hbehind : BehindPointers target source expected given :=
    .inr ⟨_, _, Corresponds.start.element rfl rfl rfl rfl, rfl, rfl, rfl, rfl⟩
  exact ⟨htarget, hsource, hcompatible, hbehind,
    (acceptsPromotion_of_pointers htarget hsource hcompatible hbehind).1⟩

/-- Where no pointer is followed, the promotion rule may fail: a pointer to an array of integers
    takes a pointer to an array of const integers. -/
theorem not_acceptsPromotion_element :
    ¬ ∀ (target source : DataType) (qualities qualities' : QualitySet),
      target.Regular → source.Regular →
      (pointerTo target qualities).isCompatible (pointerTo source qualities') = true →
      ∀ a b, Corresponds target source a b → a.qualities.acceptsPromotion b.qualities = true := by
  intro h
  have hplain : (ofKind .int .empty).Regular := regular_ofKind (by decide) (by decide)
  have hlocked : (ofKind .int { const := true }).Regular := regular_ofKind (by decide) (by decide)
  have hpromotion := h (arrayOf (ofKind .int .empty) .unspecified .empty)
    (arrayOf (ofKind .int { const := true }) .unspecified .empty) .empty .empty
    (hplain.arrayOf _ (by decide)) (hlocked.arrayOf _ (by decide)) (by decide) _ _
    (Corresponds.start.element rfl rfl rfl rfl)
  revert hpromotion
  decide

end SinFrontend.DataType
