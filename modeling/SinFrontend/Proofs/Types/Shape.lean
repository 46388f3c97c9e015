import SinFrontend.Proofs.Types.Compatibility

/-!
# Compatible types have the same shape

References count for nothing when types are compared. Once they are taken out of two compatible
types, wherever they stand, the two trees that are left agree position by position: in their kinds,
apart from a character that is used as a string, and in how many types stand in a pointer, an array
or a tuple. Of a struct, its kind is all that is compared: one struct goes with any other.

* `DataType.withoutReferences`: a type with all references inside it taken out.
* `DataType.Alongside`: two trees agree at every position of theirs.
* `DataType.alongside_of_isCompatible`: compatible types agree in this way without their references.
* `DataType.not_sameNames_of_isCompatible`: structs of different names are compatible.
-/

namespace SinFrontend.DataType

/-! ## Types without references -/

mutual

/-- A type with its references taken out, wherever they stand inside it. -/
def withoutReferences : DataType → DataType
  | ⟨kind, contained, qualities, length, structName⟩ =>
    match kind, allWithoutReferences contained with
    | .reference, target :: _ => target
    | kind, parts => ⟨kind, parts, qualities, length, structName⟩
termination_by structural type => type

/-- Types with their references taken out, one by one. -/
def allWithoutReferences : List DataType → List DataType
  | [] => []
  | type :: types => type.withoutReferences :: allWithoutReferences types
termination_by structural types => types

end

variable {a b part : DataType}

theorem allWithoutReferences_eq_map (types : List DataType) :
    allWithoutReferences types = types.map withoutReferences := by
  induction types with
  | nil => rfl
  | cons type types ih => rw [allWithoutReferences, ih, List.map_cons]

theorem withoutReferences_of_reference (ha : a.kind = .reference) (hpart : a.contained = [part]) :
    a.withoutReferences = part.withoutReferences := by
  obtain ⟨kind, contained, qualities, length, structName⟩ := a
  obtain rfl : kind = .reference := ha
  obtain rfl : contained = [part] := hpart
  rfl

/-- Where no reference stands, only what is contained changes. -/
theorem withoutReferences_of_ne (ha : a.kind ≠ .reference) :
    a.withoutReferences = { a with contained := a.contained.map withoutReferences } := by
  obtain ⟨kind, contained, qualities, length, structName⟩ := a
  dsimp only at ha ⊢
  rw [← allWithoutReferences_eq_map]
  cases kind with
  | reference => exact absurd rfl ha
  | _ => rfl

/-- All references of a regular type are taken out. -/
theorem Regular.withoutReferences (ha : a.Regular) :
    a.withoutReferences.Everywhere (·.kind ≠ .reference) := by
  induction a using induction_on_parts with
  | step a ih =>
    by_cases hkind : a.kind = .reference
    · obtain ⟨part, hpart, hregular⟩ := ha.exists_part (.inr (.inl hkind))
      rw [withoutReferences_of_reference hkind hpart]
      exact ih part (by simp [hpart]) hregular
    · rw [withoutReferences_of_ne hkind]
      exact .intro hkind (List.forall_mem_map.mpr fun part hpart => ih part hpart (ha.of_mem hpart))

/-! ## Agreement of trees -/

/-- `node` holds of two types, and of what pointers, arrays and tuples contain at the same position
    of both. -/
inductive Alongside (node : DataType → DataType → Prop) : DataType → DataType → Prop where
  | intro {a b : DataType} (here : node a b)
      (parts : ¬ Simple a.kind → ∀ pair ∈ a.contained.zip b.contained,
        Alongside node pair.1 pair.2) : Alongside node a b

theorem Alongside.here {node : DataType → DataType → Prop} (h : Alongside node a b) : node a b := by
  cases h with
  | intro here _ => exact here

/-- Two types look the same from outside: they are of the same kind, or a string expects a
    character, and as many types stand in a pointer, an array or a tuple. -/
structure SameOutside (a b : DataType) : Prop where
  kind : a.kind = b.kind ∨ a.kind = .string ∧ b.kind = .char
  size : ¬ Simple a.kind → a.contained.length = b.contained.length

/-- Two structs have the same name. -/
def SameName (a b : DataType) : Prop :=
  a.kind = .struct → b.kind = .struct → a.structName = b.structName

/-! ## Compatible types -/

/-- What two compatible types contain is compatible one by one, if neither is a reference and the
    first one is a pointer, an array or a tuple. -/
theorem forall₂_of_isCompatible (ha : a.Regular) (hb : b.Regular) (ha' : a.kind ≠ .reference)
    (hb' : b.kind ≠ .reference) (hcompound : ¬ Simple a.kind) (h : a.isCompatible b = true) :
    List.Forall₂ (fun target source => target.isCompatible source = true)
      a.contained b.contained := by
  have hkinds := kind_of_isCompatible ha hb ha' hb' h
  rcases kind_cases a.kind with hkind | hkind | hkind | hsimple
  · have hkind' : b.kind = .ptr := by simp_all
    obtain ⟨target, htarget, -⟩ := ha.exists_part (.inl hkind)
    obtain ⟨source, hsource, -⟩ := hb.exists_part (.inl hkind')
    rw [isCompatible_ptr hkind hkind' htarget hsource, Bool.and_eq_true] at h
    rw [htarget, hsource]
    exact .cons h.1 .nil
  · have hkind' : b.kind = .array := by simp_all
    obtain ⟨target, htarget, -⟩ := ha.exists_part (.inr (.inr hkind))
    obtain ⟨source, hsource, -⟩ := hb.exists_part (.inr (.inr hkind'))
    rw [isCompatible_array hkind hkind' htarget hsource] at h
    rw [htarget, hsource]
    exact .cons h .nil
  · have hkind' : b.kind = .tuple := by simp_all
    exact (isCompatible_tuple hkind hkind').mp h
  · exact absurd hsimple hcompound

/-- Two types that are no references agree if what they contain does. -/
theorem alongside_values (ha : a.Regular) (hb : b.Regular) (ha' : a.kind ≠ .reference)
    (hb' : b.kind ≠ .reference) (h : a.isCompatible b = true)
    (hparts : ∀ part ∈ a.contained, ∀ other ∈ b.contained, part.isCompatible other = true →
      Alongside SameOutside part.withoutReferences other.withoutReferences) :
    Alongside SameOutside a.withoutReferences b.withoutReferences := by
  rw [withoutReferences_of_ne ha', withoutReferences_of_ne hb']
  have hkinds := kind_of_isCompatible ha hb ha' hb' h
  refine .intro ⟨hkinds, fun hcompound => ?_⟩ fun hcompound pair hpair => ?_
  · simpa using (forall₂_of_isCompatible ha hb ha' hb' hcompound h).length_eq
  · have hcontained := forall₂_of_isCompatible ha hb ha' hb' hcompound h
    obtain ⟨⟨part, other⟩, hmem, rfl⟩ : ∃ inner ∈ a.contained.zip b.contained,
        Prod.map withoutReferences withoutReferences inner = pair := by
      rwa [List.zip_map, List.mem_map] at hpair
    obtain ⟨hpart, hother⟩ := List.of_mem_zip hmem
    exact hparts part hpart other hother ((List.forall₂_iff_zip.mp hcontained).2 hmem)

/-- Compatible types agree position by position once their references are taken out, wherever these
    stand: their kinds are the same, or a string expects a character, and as many types stand in
    pointers, arrays and tuples. -/
theorem alongside_of_isCompatible (ha : a.Regular) (hb : b.Regular)
    (h : a.isCompatible b = true) :
    (a.withoutReferences.Everywhere (·.kind ≠ .reference) ∧
      b.withoutReferences.Everywhere (·.kind ≠ .reference)) ∧
    Alongside SameOutside a.withoutReferences b.withoutReferences := by
  refine ⟨⟨ha.withoutReferences, hb.withoutReferences⟩, ?_⟩
  induction a using induction_on_parts generalizing b with
  | step a ih =>
    by_cases ha' : a.kind = .reference
    · obtain ⟨part, hpart, hregular⟩ := ha.exists_part (.inr (.inl ha'))
      rw [isCompatible_of_reference_left ha' hpart] at h
      rw [withoutReferences_of_reference ha' hpart]
      exact ih part (by simp [hpart]) hregular hb h
    induction b using induction_on_parts with
    | step b ihb =>
      by_cases hb' : b.kind = .reference
      · obtain ⟨part, hpart, hregular⟩ := hb.exists_part (.inr (.inl hb'))
        rw [isCompatible_of_reference_right ha hb' hpart hregular.kind_ne_raw] at h
        rw [withoutReferences_of_reference hb' hpart]
        exact ihb part (by simp [hpart]) hregular h
      · exact alongside_values ha hb ha' hb' h fun part hpart other hother =>
          ih part hpart (ha.of_mem hpart) (hb.of_mem hother)

/-- A tuple of a string and of a pointer to a struct takes a reference to a tuple of a character and
    of a reference to a pointer to another struct. -/
theorem alongside_of_isCompatible_tuple :
    let target := tupleOf [ofKind .string .empty,
      pointerTo (structNamed "Point" { const := true }) .empty] .empty
    let source := referenceTo (tupleOf [ofKind .char .empty,
      referenceTo (pointerTo (structNamed "Size" .empty) .empty) .empty] .empty) .empty
    target.Regular ∧ source.Regular ∧ target.isCompatible source = true ∧
      Alongside SameOutside target.withoutReferences source.withoutReferences := by
  intro target source
  have htarget : target.Regular := .tupleOf (by
    rw [List.forall_mem_cons, List.forall_mem_singleton]
    exact ⟨regular_ofKind (by decide) (by decide),
      (regular_structNamed _ (by decide)).pointerTo (by decide)⟩) (by decide)
  have hsource : source.Regular := .referenceTo (.tupleOf (by
    rw [List.forall_mem_cons, List.forall_mem_singleton]
    exact ⟨regular_ofKind (by decide) (by decide),
      ((regular_structNamed _ (by decide)).pointerTo (by decide)).referenceTo (by decide)⟩)
    (by decide)) (by decide)
  have hcompatible : target.isCompatible source = true := by decide
  exact ⟨htarget, hsource, hcompatible,
    (alongside_of_isCompatible htarget hsource hcompatible).2⟩

/-- The names of structs are not compared: a struct takes a struct of another name. -/
theorem not_sameNames_of_isCompatible :
    ¬ ∀ a b : DataType, a.Regular → b.Regular → a.isCompatible b = true →
      Alongside (fun a b => SameOutside a b ∧ SameName a b) a.withoutReferences
        b.withoutReferences := by
  intro h
  have hnames := (h (structNamed "Point" .empty) (structNamed "Size" .empty)
    (regular_structNamed _ (by decide)) (regular_structNamed _ (by decide)) (by decide)).here.2
  exact absurd (hnames rfl rfl) (by decide)

end SinFrontend.DataType
