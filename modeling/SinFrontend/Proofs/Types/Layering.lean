import SinFrontend.Proofs.Trees.WellMade

/-!
# Qualities that are layered on others

A set of qualities is layered on another one by adding what it lists, in the fixed order of the
lists. What was added first may be withdrawn by what is added later, so that the order counts:
`unsigned` is listed behind `signed`, and a set that lists both leaves no `signed`.

* `Quality.withdraws`: which qualities withdraw others.
* `lists_addEach_iff`: a quality is listed behind a list of them if it was added and not withdrawn
  later on, or was listed before and not withdrawn at all.
* `addEach_conflict_eq_none`: qualities are added without a conflict if they agree.
* `addAll_sign`: what a set leaves when it is layered on a set with nothing but a sign.
-/

namespace SinFrontend

/-- Whether adding a quality withdraws another one. -/
def Quality.withdraws : Quality → Quality → Bool
  | .unsigned, .signed | .long, .short | .short, .long => true
  | _, _ => false

namespace QualitySet

variable {set other grown : QualitySet} {quality : Quality} {qualities : List Quality}

/-- A set is determined by what it lists. -/
theorem ext_lists (h : ∀ quality, set.lists quality = other.lists quality) : set = other := by
  cases set
  cases other
  simpa only [mk.injEq] using ⟨h .const, h .final, h .static, h .dynamic, h .signed, h .unsigned,
    h .long, h .short, h .external, Bool.not_inj (h .unmanaged)⟩

/-! ## Adding qualities one by one -/

theorem lists_of_add (h : set.add quality = .ok grown) (listed : Quality) :
    grown.lists listed = true ↔
      quality = listed ∨ set.lists listed = true ∧ quality.withdraws listed = false := by
  rw [add.eq_def] at h
  cases quality with
  | const | final =>
    dsimp only at h
    split at h
    · cases h
    · cases h
      cases listed <;> simp [lists, Quality.withdraws]
  | _ =>
    cases h
    cases listed <;> simp [lists, Quality.withdraws]

/-- Among qualities that are added one by one, one of them is added and not withdrawn behind. -/
def Remains (qualities : List Quality) (quality : Quality) : Prop :=
  ∃ front back, qualities = front ++ quality :: back ∧
    ∀ other ∈ back, other.withdraws quality = false

theorem remains_cons_iff {first : Quality} : Remains (first :: qualities) quality ↔
    (first = quality ∧ ∀ other ∈ qualities, other.withdraws quality = false) ∨
      Remains qualities quality := by
  constructor
  · rintro ⟨front, back, hsplit, hback⟩
    cases front with
    | nil =>
      obtain ⟨rfl, rfl⟩ := List.cons.inj hsplit
      exact .inl ⟨rfl, hback⟩
    | cons _ front => exact .inr ⟨front, back, (List.cons.inj hsplit).2, hback⟩
  · rintro (⟨rfl, hback⟩ | ⟨front, back, rfl, hback⟩)
    · exact ⟨[], qualities, rfl, hback⟩
    · exact ⟨first :: front, back, rfl, hback⟩

/-- Behind qualities that do not contradict each other, the set lists those that remain among them,
    and what it listed before and none of them withdraws. -/
theorem lists_addEach_iff (h : set.addEach qualities = (grown, none)) (quality : Quality) :
    grown.lists quality = true ↔ Remains qualities quality ∨
      set.lists quality = true ∧ ∀ other ∈ qualities, other.withdraws quality = false := by
  induction qualities generalizing set with
  | nil =>
    cases h
    simp [Remains]
  | cons first rest ih =>
    rw [addEach] at h
    cases hadd : set.add first with
    | error conflict =>
      rw [hadd] at h
      cases h
    | ok next =>
      rw [hadd] at h
      rw [ih h, lists_of_add hadd, remains_cons_iff, List.forall_mem_cons]
      tauto

/-- Qualities are added without a conflict if they bring no `const` and `final` together. -/
theorem addEach_conflict_eq_none
    (h : ¬((set.const = true ∨ .const ∈ qualities) ∧ (set.final = true ∨ .final ∈ qualities))) :
    (set.addEach qualities).2 = none := by
  induction qualities generalizing set with
  | nil => rfl
  | cons first rest ih =>
    rw [addEach]
    cases hadd : set.add first with
    | error conflict =>
      refine absurd ?_ h
      rw [add.eq_def] at hadd
      cases first with
      | const =>
        by_cases hfinal : set.final = true
        · exact ⟨.inr List.mem_cons_self, .inl hfinal⟩
        · simp [hfinal] at hadd
      | final =>
        by_cases hconst : set.const = true
        · exact ⟨.inl hconst, .inr List.mem_cons_self⟩
        · simp [hconst] at hadd
      | _ => cases hadd
    | ok next =>
      have hkept (quality : Quality) (hmem : next.lists quality = true ∨ quality ∈ rest) :
          set.lists quality = true ∨ quality ∈ first :: rest := by
        rcases hmem with hlisted | hmem
        · rcases (lists_of_add hadd quality).mp hlisted with rfl | ⟨hbefore, -⟩
          · exact .inr List.mem_cons_self
          · exact .inl hbefore
        · exact .inr (List.mem_cons_of_mem first hmem)
      exact ih fun hboth => h ⟨hkept .const hboth.1, hkept .final hboth.2⟩

/-! ## Layering a set -/

theorem remains_filter_cons_iff {p : Quality → Bool} {first : Quality} :
    Remains ((first :: qualities).filter p) quality ↔
      (p first = true ∧ first = quality ∧
        ∀ other ∈ qualities.filter p, other.withdraws quality = false) ∨
      Remains (qualities.filter p) quality := by
  by_cases hfirst : p first = true
  · rw [List.filter_cons_of_pos hfirst, remains_cons_iff, and_iff_right hfirst]
  · rw [List.filter_cons_of_neg hfirst]
    simp [hfirst]

/-- In the fixed order, what is listed remains, except in front of what withdraws it. -/
theorem remains_listed_iff (set : QualitySet) (quality : Quality) :
    Remains set.listed quality ↔ set.lists quality = true ∧
      (quality = .signed → set.unsigned = false) ∧ (quality = .long → set.short = false) := by
  rw [listed, Quality.all]
  simp only [remains_filter_cons_iff, List.filter_nil]
  cases quality <;> simp [Remains, Quality.withdraws, lists]

/-- What a set leaves when it is layered on a set with nothing but a sign, or with nothing. -/
theorem addAll_sign (h : other.Coherent) (signed : Bool) :
    ({ signed } : QualitySet).addAll other =
      ({ other with signed := (signed || other.signed) && !other.unsigned }, none) := by
  have hlisted (quality : Quality) : quality ∈ other.listed ↔ other.lists quality = true := by
    rw [listed, List.mem_filter, and_iff_right (by cases quality <;> decide)]
  have hnone : (({ signed } : QualitySet).addEach other.listed).2 = none := by
    refine addEach_conflict_eq_none fun hboth => h.consistent ?_
    simpa [hlisted, lists] using hboth
  have hkept : (∀ later ∈ other.listed, later.withdraws .signed = false) ↔ other.unsigned = false := by
    constructor
    · intro hall
      by_contra hunsigned
      exact absurd (hall .unsigned ((hlisted .unsigned).mpr (by simpa [lists] using hunsigned)))
        (by decide)
    · intro hunsigned later hlater
      cases later with
      | unsigned => simp [hlisted, lists, hunsigned] at hlater
      | _ => rfl
  refine Prod.ext (ext_lists fun quality => Bool.eq_iff_iff.mpr ?_) hnone
  show (({ signed } : QualitySet).addEach other.listed).1.lists quality = true ↔ _
  rw [lists_addEach_iff (Prod.ext rfl hnone), remains_listed_iff]
  cases quality with
  | signed =>
    rw [hkept]
    simp only [lists, Bool.and_eq_true, Bool.or_eq_true, Bool.not_eq_true']
    tauto
  | long =>
    simpa [lists] using h.width
  | _ => simp [lists]

/-! ## Words -/

/-- The words of a set are listed in it, unless others withdraw them. -/
theorem lists_of_addEach_empty (h : empty.addEach qualities = (set, none)) (quality : Quality) :
    set.lists quality = true ↔ Remains qualities quality := by
  rw [lists_addEach_iff h, or_iff_left]
  cases quality <;> simp [lists, empty]

/-- What nothing withdraws remains wherever it was added. -/
theorem remains_iff_mem (h : ∀ other : Quality, other.withdraws quality = false) :
    Remains qualities quality ↔ quality ∈ qualities := by
  constructor
  · rintro ⟨front, back, rfl, -⟩
    simp
  · intro hmem
    obtain ⟨front, back, rfl⟩ := List.append_of_mem hmem
    exact ⟨front, back, rfl, fun other _ => h other⟩

end QualitySet

/-! ## The sign of a type -/

namespace DataType

/-- Whether a set says `unsigned`, and a type that is made with it is marked signed all the same: a
    float always is, and so is a type with both signs in its set. -/
def bothSigns (kind : PrimaryKind) (qualities : QualitySet) : Bool :=
  qualities.unsigned && (kind == .float || qualities.signed)

theorem signed_of_bothSigns {kind : PrimaryKind} {qualities : QualitySet}
    (h : bothSigns kind qualities = true) : (impliedQualities kind qualities).signed = true := by
  rw [bothSigns, Bool.and_eq_true, Bool.or_eq_true, beq_iff_eq] at h
  obtain ⟨-, rfl | hsigned⟩ := h
  · rfl
  · cases kind <;> simp [impliedQualities, hsigned]

/-- What a set leaves when it is layered on what a kind implies, against what the kind implies of the
    set: the sign is withdrawn where a type that is made with the set has both. -/
theorem addAll_impliedQualities {qualities : QualitySet} (h : qualities.Coherent)
    (kind : PrimaryKind) : (impliedQualities kind .empty).addAll qualities =
      ({ impliedQualities kind qualities with
          signed := (impliedQualities kind qualities).signed && !bothSigns kind qualities }, none) := by
  have hlayered := QualitySet.addAll_sign h
  cases kind with
  | int =>
    refine (hlayered true).trans ?_
    cases hsigned : qualities.signed <;> cases hunsigned : qualities.unsigned <;>
      simp [impliedQualities, bothSigns, hsigned, hunsigned]
  | float =>
    refine (hlayered true).trans ?_
    cases hunsigned : qualities.unsigned <;> simp [impliedQualities, bothSigns, hunsigned]
  | _ =>
    refine (hlayered false).trans ?_
    cases hsigned : qualities.signed <;> cases hunsigned : qualities.unsigned <;>
      simp [impliedQualities, bothSigns, hsigned, hunsigned]

end DataType

end SinFrontend
