import SinFrontend.DataType

/-!
# The parts of a type

A type contains other types, and those contain types again.

* `DataType.induction_on_parts`: what passes from the contained types to the type that contains them
  holds of every type.
* `DataType.Everywhere`: a property of a type and of all types inside it.
* `DataType.Regular`: types as the makers of pointers, references and arrays leave them, without a
  raw type inside.
-/

namespace SinFrontend

/-- A set that is not const and final at once. -/
def QualitySet.Consistent (set : QualitySet) : Prop :=
  ¬(set.const = true ∧ set.final = true)

instance : DecidablePred QualitySet.Consistent :=
  fun set => inferInstanceAs (Decidable ¬(set.const = true ∧ set.final = true))

namespace DataType

/-- What passes from the contained types to the type that contains them holds of every type. -/
theorem induction_on_parts {motive : DataType → Prop}
    (step : ∀ type, (∀ part ∈ type.contained, motive part) → motive type) :
    ∀ type, motive type
  | ⟨_, contained, _, _, _⟩ => step _ fun part hpart =>
    have : sizeOf part < sizeOf contained := List.sizeOf_lt_of_mem hpart
    induction_on_parts step part
termination_by type => sizeOf type
decreasing_by
  simp only [mk.sizeOf_spec]
  omega

/-- A property holds of a type and of every type inside it. -/
inductive Everywhere (p : DataType → Prop) : DataType → Prop where
  | intro {type : DataType} (here : p type) (parts : ∀ part ∈ type.contained, Everywhere p part) :
      Everywhere p type

variable {p : DataType → Prop} {type part : DataType}

theorem Everywhere.here (h : type.Everywhere p) : p type := by
  cases h with
  | intro here parts => exact here

theorem Everywhere.of_mem (h : type.Everywhere p) (hpart : part ∈ type.contained) :
    part.Everywhere p := by
  cases h with
  | intro here parts => exact parts part hpart

theorem everywhere_iff :
    type.Everywhere p ↔ p type ∧ ∀ part ∈ type.contained, part.Everywhere p :=
  ⟨fun h => ⟨h.here, fun _ => h.of_mem⟩, fun h => .intro h.1 h.2⟩

/-! ## Well-formed types -/

/-- What a well-formed type looks like from outside: a pointer, a reference or an array contains
    exactly one type, and the qualities are consistent. -/
structure Sound (type : DataType) : Prop where
  single : type.kind = .ptr ∨ type.kind = .reference ∨ type.kind = .array →
    ∃ part, type.contained = [part]
  consistent : type.qualities.Consistent

/-- A type that is sound at every depth. -/
def WellFormed (type : DataType) : Prop :=
  type.Everywhere Sound

/-- A type that is not raw and has no raw type inside. -/
def RawFree (type : DataType) : Prop :=
  type.Everywhere (·.kind ≠ .raw)

/-- A well-formed type without a raw type inside. -/
structure Regular (type : DataType) : Prop where
  wellFormed : type.WellFormed
  rawFree : type.RawFree

theorem Regular.intro (hsound : type.Sound) (hraw : type.kind ≠ .raw)
    (hparts : ∀ part ∈ type.contained, part.Regular) : type.Regular :=
  ⟨.intro hsound fun part hpart => (hparts part hpart).wellFormed,
    .intro hraw fun part hpart => (hparts part hpart).rawFree⟩

theorem Regular.of_mem (h : type.Regular) (hpart : part ∈ type.contained) : part.Regular :=
  ⟨h.wellFormed.of_mem hpart, h.rawFree.of_mem hpart⟩

theorem Regular.kind_ne_raw (h : type.Regular) : type.kind ≠ .raw :=
  h.rawFree.here

/-- What a pointer points to, a reference refers to or an array is made of. -/
theorem Regular.exists_part (h : type.Regular)
    (hkind : type.kind = .ptr ∨ type.kind = .reference ∨ type.kind = .array) :
    ∃ part, type.contained = [part] ∧ part.Regular := by
  obtain ⟨part, hpart⟩ := h.wellFormed.here.single hkind
  exact ⟨part, hpart, h.of_mem (by simp [hpart])⟩

/-! ## Makers of regular types -/

variable {qualities : QualitySet}

/-- The qualities that a kind implies are those of its sign alone. -/
theorem consistent_impliedQualities (kind : PrimaryKind) (h : qualities.Consistent) :
    (impliedQualities kind qualities).Consistent := by
  cases kind <;> exact h

theorem regular_ofKind {kind : PrimaryKind}
    (hkind : kind ∉ [.ptr, .reference, .array, .raw]) (h : qualities.Consistent) :
    (ofKind kind qualities).Regular := by
  have hchar : (make .char [] .empty .unspecified none).Regular :=
    .intro ⟨by simp [make], by decide⟩ nofun nofun
  simp only [List.mem_cons, List.not_mem_nil, or_false, not_or] at hkind
  obtain ⟨hptr, hreference, harray, hraw⟩ := hkind
  refine .intro ⟨fun hsingle => ?_, consistent_impliedQualities kind h⟩ hraw fun part hpart => ?_
  · rcases hsingle with hsingle | hsingle | hsingle
    · exact absurd hsingle hptr
    · exact absurd hsingle hreference
    · exact absurd hsingle harray
  · by_cases hstring : kind = .string
    · simp_all [ofKind, make]
    · simp [ofKind, make, hstring] at hpart

theorem Regular.pointerTo (h : type.Regular) (hqualities : qualities.Consistent) :
    (pointerTo type qualities).Regular :=
  .intro ⟨fun _ => ⟨type, rfl⟩, hqualities⟩ nofun (List.forall_mem_singleton.mpr h)

theorem Regular.referenceTo (h : type.Regular) (hqualities : qualities.Consistent) :
    (referenceTo type qualities).Regular :=
  .intro ⟨fun _ => ⟨type, rfl⟩, hqualities⟩ nofun (List.forall_mem_singleton.mpr h)

theorem Regular.arrayOf (h : type.Regular) (length : ArrayLength)
    (hqualities : qualities.Consistent) : (arrayOf type length qualities).Regular :=
  .intro ⟨fun _ => ⟨type, rfl⟩, hqualities⟩ nofun (List.forall_mem_singleton.mpr h)

theorem Regular.tupleOf {members : List DataType} (h : ∀ member ∈ members, member.Regular)
    (hqualities : qualities.Consistent) : (tupleOf members qualities).Regular :=
  .intro ⟨nofun, hqualities⟩ nofun h

theorem regular_structNamed (name : String) (hqualities : qualities.Consistent) :
    (structNamed name qualities).Regular :=
  .intro ⟨nofun, hqualities⟩ nofun nofun

end DataType

end SinFrontend
