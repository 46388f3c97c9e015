import SinFrontend.Proofs.Trees.WellMade

/-!
# Layering qualities changes all or nothing

A set is layered on another one quality by quality, so a conflict could leave it layered in part. It
does not: only `const` and `final` are ever refused, they are listed before all others, and no set
that callers can come by lists both. So the first quality is refused or none is.

* `QualitySet.Built`: the sets that callers can come by, also through layerings that failed.
* `QualitySet.Excludes`: when a set refuses a quality of another one.
* `QualitySet.addAll_eq_some_iff`: a conflict names what is refused.
* `QualitySet.addAll_of_conflict`: nothing has been layered before a conflict.
* `overrideQualities_atomic`: sets, types and expressions are left as they were by whatever fails.
-/

namespace SinFrontend

namespace QualitySet

variable {own other set : QualitySet} {quality : Quality} {qualities : List Quality}

/-! ## The sets that callers can come by -/

/-- A set that was started empty, from flags or from a list of qualities, and to which single
    qualities and whole sets were added. A set that is refused may be added up to the conflict. -/
inductive Built : QualitySet → Prop where
  | empty : Built .empty
  | ofFlags (const static dynamic signed long short external : Bool) :
      Built (.ofFlags const static dynamic signed long short external)
  | ofList {qualities : List Quality} {set : QualitySet} (made : ofList qualities = .ok set) :
      Built set
  | add {set grown : QualitySet} {quality : Quality} (before : Built set)
      (added : set.add quality = .ok grown) : Built grown
  | addAll {set other : QualitySet} (before : Built set) (source : Built other) :
      Built (set.addAll other).1

theorem addEach_of_ofList (h : ofList qualities = .ok set) :
    empty.addEach qualities = (set, none) := by
  unfold ofList at h
  split at h
  next hadded =>
    cases h
    exact hadded
  next => cases h

theorem Built.coherent (h : set.Built) : set.Coherent := by
  induction h with
  | empty => exact coherent_empty
  | ofFlags _ _ _ _ long short _ =>
    exact ⟨by simp [Consistent, QualitySet.ofFlags],
      by cases long <;> cases short <;> simp [QualitySet.ofFlags]⟩
  | @ofList qualities _ made =>
    have hgrown := (coherent_empty.addEach qualities).1
    rwa [addEach_of_ofList made] at hgrown
  | add _ added ih => exact (ih.add added).1
  | addAll _ _ ih _ => exact (ih.addEach _).1

/-! ## What is refused -/

/-- A set has `const`, and the other one the quality `final`, or the other way round. -/
def Excludes (own other : QualitySet) (quality : Quality) : Prop :=
  quality = .const ∧ other.const = true ∧ own.final = true ∨
    quality = .final ∧ other.final = true ∧ own.const = true

/-- Only `const` and `final` are ever refused. -/
theorem addEach_of_unlocked (h : ∀ quality ∈ qualities, quality ≠ .const ∧ quality ≠ .final) :
    (set.addEach qualities).2 = none := by
  induction qualities generalizing set with
  | nil => rfl
  | cons first rest ih =>
    obtain ⟨⟨hconst, hfinal⟩, hrest⟩ := List.forall_mem_cons.mp h
    rw [addEach]
    cases first with
    | const => exact absurd rfl hconst
    | final => exact absurd rfl hfinal
    | _ => exact ih hrest

/-- `const` and `final` are listed before all other qualities. -/
theorem exists_listed (set : QualitySet) : ∃ rest : List Quality,
    set.listed = [Quality.const, .final].filter set.lists ++ rest ∧
      ∀ quality ∈ rest, quality ≠ .const ∧ quality ≠ .final := by
  refine ⟨(Quality.all.drop 2).filter set.lists,
    List.filter_append [Quality.const, .final] (Quality.all.drop 2), ?_⟩
  intro quality hmem
  have hlater : quality ∈ Quality.all.drop 2 := (List.mem_filter.mp hmem).1
  revert hlater
  cases quality <;> decide

/-- A quality that is excluded is the first one to be added. -/
theorem addAll_of_excludes (h : other.Consistent) (hexcludes : own.Excludes other quality) :
    own.addAll other = (own, some ⟨quality⟩) := by
  obtain ⟨rest, hlisted, -⟩ := exists_listed other
  rw [addAll, hlisted]
  rcases hexcludes with ⟨rfl, hother, hown⟩ | ⟨rfl, hother, hown⟩
  · simp [lists, hother, addEach, add, hown]
  · have hconst : other.const = false := by simpa [Consistent, hother] using h
    simp [lists, hother, hconst, addEach, add, hown]

theorem addAll_of_not_excludes (h : other.Consistent)
    (hnone : ∀ quality, ¬own.Excludes other quality) : (own.addAll other).2 = none := by
  obtain ⟨rest, hlisted, hrest⟩ := exists_listed other
  rw [addAll, hlisted]
  cases hconst : other.const with
  | true =>
    have hfinal : other.final = false := by simpa [Consistent, hconst] using h
    have hown : own.final = false := by simpa [Excludes, hconst] using hnone .const
    simp [lists, hconst, hfinal, addEach, add, hown, addEach_of_unlocked hrest]
  | false =>
    cases hfinal : other.final with
    | true =>
      have hown : own.const = false := by simpa [Excludes, hfinal] using hnone .final
      simp [lists, hconst, hfinal, addEach, add, hown, addEach_of_unlocked hrest]
    | false => simp [lists, hconst, hfinal, addEach_of_unlocked hrest]

/-- The conflict names what is excluded, and nothing has been added before it. -/
theorem addAll_eq_some_iff (h : other.Consistent) (own : QualitySet) (conflict : QualityConflict) :
    (own.addAll other).2 = some conflict ↔ own.Excludes other conflict.quality := by
  refine ⟨fun hconflict => ?_, fun hexcludes => by rw [addAll_of_excludes h hexcludes]⟩
  by_contra hnot
  rcases Classical.em (∃ quality, own.Excludes other quality) with ⟨quality, hexcludes⟩ | hnone
  · rw [addAll_of_excludes h hexcludes] at hconflict
    cases hconflict
    exact hnot hexcludes
  · rw [addAll_of_not_excludes h (not_exists.mp hnone)] at hconflict
    cases hconflict

theorem addAll_of_conflict (h : other.Consistent) (hfails : (own.addAll other).2 ≠ none) :
    (own.addAll other).1 = own := by
  obtain ⟨conflict, hconflict⟩ := Option.ne_none_iff_exists'.mp hfails
  rw [addAll_of_excludes h ((addAll_eq_some_iff h own conflict).mp hconflict)]

/-- Sets that callers cannot come by would be layered in part: `const` is added before `final` is
    refused. -/
example : empty.addAll { const := true, final := true } =
    ({ const := true }, some ⟨.final⟩) := by decide

end QualitySet

/-! ## Types and expressions -/

/-- The qualities that others are layered on: those of a type that is known without analysis, or
    those that a list or an attribute word keeps itself. -/
def Expression.ownQualities? : Expression → Option QualitySet
  | literal type _ _ | typeName type _ | attributeSelection _ _ type _ => some type.qualities
  | list _ _ qualities _ | attributeName _ qualities _ => some qualities
  | _ => none

open QualitySet

variable {other : QualitySet}

theorem DataType.addQualities_eq_some_iff (h : other.Consistent) (type : DataType)
    (conflict : QualityConflict) :
    (type.addQualities other).2 = some conflict ↔
      type.qualities.Excludes other conflict.quality :=
  addAll_eq_some_iff h type.qualities conflict

/-- A type stays as it is if its qualities do. -/
theorem DataType.addQualities_of_addAll {type : DataType}
    (hsame : (type.qualities.addAll other).1 = type.qualities) :
    (type.addQualities other).1 = type := by
  show { type with qualities := (type.qualities.addAll other).1 } = type
  rw [hsame]
  cases type
  rfl

theorem DataType.addQualities_of_conflict (h : other.Consistent) {type : DataType}
    (hfails : (type.addQualities other).2 ≠ none) : (type.addQualities other).1 = type :=
  addQualities_of_addAll (addAll_of_conflict h hfails)

/-- Layering qualities on an expression is layering them on its own, if it has any. -/
theorem Expression.overrideQualities_cases (expression : Expression) (other : QualitySet) :
    (expression.ownQualities? = none ∧
      expression.overrideQualities other = (expression, some .unsupported)) ∨
    ∃ own, expression.ownQualities? = some own ∧
      (expression.overrideQualities other).2 = (own.addAll other).2.map .conflict ∧
      ((own.addAll other).1 = own → (expression.overrideQualities other).1 = expression) := by
  cases expression with
  | literal type value constant =>
    refine .inr ⟨type.qualities, rfl, rfl, fun hsame => ?_⟩
    show literal (type.addQualities other).1 value constant = _
    rw [DataType.addQualities_of_addAll hsame]
  | typeName type constant =>
    refine .inr ⟨type.qualities, rfl, rfl, fun hsame => ?_⟩
    show typeName (type.addQualities other).1 constant = _
    rw [DataType.addQualities_of_addAll hsame]
  | attributeSelection selected attr type constant =>
    refine .inr ⟨type.qualities, rfl, rfl, fun hsame => ?_⟩
    show attributeSelection selected attr (type.addQualities other).1 constant = _
    rw [DataType.addQualities_of_addAll hsame]
  | list kind elements own constant =>
    refine .inr ⟨own, rfl, rfl, fun hsame => ?_⟩
    show list kind elements (own.addAll other).1 constant = _
    rw [hsame]
  | attributeName attr own constant =>
    refine .inr ⟨own, rfl, rfl, fun hsame => ?_⟩
    show attributeName attr (own.addAll other).1 constant = _
    rw [hsame]
  | _ => exact .inl ⟨rfl, rfl⟩

/-- Layering a set that callers can come by on another set, on a type or on an expression fails with
    a conflict exactly if one side is `const` and the other one `final`. The conflict names the
    quality of the set that is layered, and whatever fails leaves everything as it was, also where
    an expression has no qualities to be layered on. -/
theorem overrideQualities_atomic (own : QualitySet) (type : DataType) (expression : Expression)
    (hbuilt : other.Built) :
    ((∀ conflict, (own.addAll other).2 = some conflict ↔
        own.Excludes other conflict.quality) ∧
      ((own.addAll other).2 ≠ none → (own.addAll other).1 = own)) ∧
    ((∀ conflict, (type.addQualities other).2 = some conflict ↔
        type.qualities.Excludes other conflict.quality) ∧
      ((type.addQualities other).2 ≠ none → (type.addQualities other).1 = type)) ∧
    (∀ conflict, (expression.overrideQualities other).2 = some (.conflict conflict) ↔
        ∃ own, expression.ownQualities? = some own ∧ own.Excludes other conflict.quality) ∧
    ((expression.overrideQualities other).2 = some .unsupported ↔
        expression.ownQualities? = none) ∧
    ((expression.overrideQualities other).2 ≠ none →
        (expression.overrideQualities other).1 = expression) := by
  have hother := hbuilt.coherent.consistent
  refine ⟨⟨addAll_eq_some_iff hother own, addAll_of_conflict hother⟩,
    ⟨type.addQualities_eq_some_iff hother, DataType.addQualities_of_conflict hother⟩, ?_⟩
  rcases expression.overrideQualities_cases other with ⟨hnone, hresult⟩ | ⟨own, hown, hfails, hkept⟩
  · simp [hnone, hresult]
  · refine ⟨fun conflict => ?_, by simp [hown, hfails], fun hconflict => ?_⟩
    · simpa [hown, hfails] using addAll_eq_some_iff hother own conflict
    · exact hkept (addAll_of_conflict hother (by simpa [hfails] using hconflict))

/-- A literal is const, so `final` is refused, and `static` is not layered either. -/
theorem overrideQualities_atomic_literal :
    Built { final := true, static := true } ∧
      ((Expression.ofLiteral .int "1").overrideQualities { final := true, static := true }).2 =
        some (.conflict ⟨.final⟩) ∧
      ((Expression.ofLiteral .int "1").overrideQualities { final := true, static := true }).1 =
        Expression.ofLiteral .int "1" := by
  have hbuilt : Built { final := true, static := true } :=
    .ofList (show QualitySet.ofList [.static, .final] = .ok _ from rfl)
  obtain ⟨-, -, hconflict, -, hkept⟩ :=
    overrideQualities_atomic .empty .unknown (.ofLiteral .int "1") hbuilt
  have hfails := (hconflict ⟨.final⟩).mpr ⟨_, rfl, .inr ⟨rfl, rfl, rfl⟩⟩
  exact ⟨hbuilt, hfails, hkept (by rw [hfails]; nofun)⟩

end SinFrontend
