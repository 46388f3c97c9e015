import Mathlib.Data.Nat.Notation
import SinFrontend.DataType

/-!
# Memory that must be released

A value holds the elements of an array and the members of a tuple as parts of itself. If one of
them owns memory, that memory has to be released together with the value.

* `DataType.Holds`: the types that are reached through elements and members, with the number of
  steps to them.
* `DataType.mustFree_iff`: `mustFree` looks one step far. What it tells is always justified by a
  type that is reached, and among types whose elements and members hold nothing in turn it misses
  none.
-/

namespace SinFrontend.DataType

/-- A type whose values own memory by themselves: a managed pointer, a string, a reference, or
    anything dynamic. -/
def Owns (type : DataType) : Prop :=
  (type.kind = .ptr ∧ type.qualities.managed = true) ∨ type.kind = .string ∨
    type.kind = .reference ∨ type.qualities.dynamic = true

/-- The types of the parts of a value: the element of an array, the members of a tuple. -/
def held (type : DataType) : List DataType :=
  match type.kind with
  | .array => type.subtype?.toList
  | .tuple => type.contained
  | _ => []

/-- `part` is reached from a type in a number of steps through elements and members. -/
inductive Holds : ℕ → DataType → DataType → Prop where
  | here (type : DataType) : Holds 0 type type
  | step {steps : ℕ} {type middle part : DataType} (first : middle ∈ type.held)
    (more : Holds steps middle part) : Holds (steps + 1) type part

variable {type part : DataType} {steps : ℕ}

/-! ## One step -/

theorem ownsMemory_iff : type.ownsMemory = true ↔ type.Owns := by
  simp only [ownsMemory, isReferenceType, Owns, Bool.or_eq_true, Bool.and_eq_true, beq_iff_eq]
  rw [or_assoc, or_left_comm (a := type.qualities.dynamic = true), or_comm (b := type.kind = _)]

theorem mustFree_eq : type.mustFree = (type.ownsMemory || type.held.any ownsMemory) := by
  unfold mustFree held
  cases type.kind with
  | array => cases type.subtype? <;> simp
  | _ => simp

/-- Where the parts hold nothing in turn, nothing is reached in more than one step. -/
theorem Holds.steps_le_one (h : Holds steps type part)
    (hflat : ∀ middle ∈ type.held, middle.held = []) : steps ≤ 1 := by
  match h with
  | .here _ => exact Nat.zero_le 1
  | .step _ (.here _) => exact Nat.le_refl 1
  | .step first (.step second _) =>
    rw [hflat _ first] at second
    cases second

/-! ## Main result -/

/-- A value must be released exactly if its type, or the type of an element or member, owns memory.
    Where elements and members hold nothing in turn, these are all types that are reached. -/
theorem mustFree_iff (type : DataType) :
    (type.mustFree = true ↔ ∃ steps ≤ 1, ∃ part, Holds steps type part ∧ part.Owns) ∧
    ((∀ part ∈ type.held, part.held = []) →
      (type.mustFree = true ↔ ∃ steps part, Holds steps type part ∧ part.Owns)) := by
  have hnear : type.mustFree = true ↔ ∃ steps ≤ 1, ∃ part, Holds steps type part ∧ part.Owns := by
    rw [mustFree_eq, Bool.or_eq_true, List.any_eq_true]
    constructor
    · rintro (hself | ⟨part, hpart, howns⟩)
      · exact ⟨0, Nat.zero_le 1, type, .here type, ownsMemory_iff.mp hself⟩
      · exact ⟨1, Nat.le_refl 1, part, .step hpart (.here part), ownsMemory_iff.mp howns⟩
    · rintro ⟨steps, hsteps, part, hholds, howns⟩
      rw [← ownsMemory_iff] at howns
      match hholds with
      | .here _ => exact .inl howns
      | .step first (.here _) => exact .inr ⟨part, first, howns⟩
  refine ⟨hnear, fun hflat => hnear.trans ?_⟩
  constructor
  · rintro ⟨steps, -, part, h⟩
    exact ⟨steps, part, h⟩
  · rintro ⟨steps, part, hholds, howns⟩
    exact ⟨steps, hholds.steps_le_one hflat, part, hholds, howns⟩

/-- An array of strings, through its elements. -/
theorem mustFree_iff_strings :
    let strings := arrayOf (ofKind .string .empty) (.resolved 3) .empty
    (∀ part ∈ strings.held, part.held = []) ∧ strings.mustFree = true := by
  intro strings
  have hheld : strings.held = [ofKind .string .empty] := rfl
  have hflat : ∀ part ∈ strings.held, part.held = [] := by
    rw [hheld, List.forall_mem_singleton]
    rfl
  have hreached : Holds 1 strings (ofKind .string .empty) :=
    .step (by rw [hheld]; exact List.mem_singleton_self _) (.here _)
  exact ⟨hflat, ((mustFree_iff strings).2 hflat).mpr ⟨1, _, hreached, .inr (.inl rfl)⟩⟩

/-- The strings in an array of arrays are reached in two steps and missed. -/
theorem not_mustFree_nested :
    ¬ ∀ type : DataType,
      type.mustFree = true ↔ ∃ steps part, Holds steps type part ∧ part.Owns := by
  intro h
  let strings := arrayOf (ofKind .string .empty) .unspecified .empty
  have hreached : Holds 2 (arrayOf strings .unspecified .empty) (ofKind .string .empty) :=
    .step (List.mem_singleton_self strings) (.step (List.mem_singleton_self _) (.here _))
  have hmust := (h (arrayOf strings .unspecified .empty)).mpr ⟨2, _, hreached, .inr (.inl rfl)⟩
  exact absurd hmust (by decide)

end SinFrontend.DataType
