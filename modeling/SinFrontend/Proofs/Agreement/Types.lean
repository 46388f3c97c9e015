import SinFrontend.Proofs.Agreement

/-!
# Agreement of readers of types

The readers of qualities and of types agree with themselves, whatever reads the goals that they
ask for, as long as those readings agree.

`Goal.rank` bounds how deeply the rules can nest from a goal on, given the tokens that are left.
Every rule asks only for goals of lower rank, with one exception: at the end of input, the reading
of an expression can ask for the reading of an expression.
-/

namespace SinFrontend

/-- How deeply rules can nest below a goal when a number of tokens is left. -/
def Goal.rank {α : Type} (goal : Goal α) (left : ℕ) : ℕ :=
  match goal with
  | .typeName => 3 * left + 1
  | .members => 3 * left + 2
  | .elements _ => 3 * left + 3
  | .expression _ => 3 * left + 5
  | .operations _ _ _ => if left = 0 then 1 else 3 * left + 6
  | .initializers => 3 * left + 6
  | .statement _ => 3 * left + 9
  | .parameters => 3 * left + 10
  | .statements => if left = 0 then 1 else 3 * left + 10

theorem Goal.rank_pos {α : Type} (goal : Goal α) (left : ℕ) : 0 < goal.rank left := by
  cases goal <;> simp only [Goal.rank] <;> try split
  all_goals omega

/-- How many tokens the reading of a goal takes at least, where there are any. -/
def Goal.length {α : Type} : Goal α → ℕ
  | .typeName | .expression _ | .statement _ => 1
  | _ => 0

namespace Parser

/-- Two ways to read goals that agree on all goals below a rank. -/
def AgreeBelow (corr : Session → Session → Prop) (bound : ℕ) (parse parse' : Descent) : Prop :=
  ∀ ⦃α : Type⦄ (goal : Goal α) (s t : Session), Abreast corr s t → goal.rank s.left < bound →
    Proceed corr (min goal.length s.left) (parse goal) (parse' goal) s t

variable {corr : Session → Session → Prop} {s t : Session}

section Qualities

variable (frame : Session.Frame corr)

include frame

theorem addQuality_proceed (hab : Abreast corr s t) (qualities : QualitySet) :
    Proceed corr 0 (addQuality qualities) (addQuality qualities) s t := by
  unfold addQuality
  apply Proceed.advance_bind frame hab
  intro token s₁ t₁ hab₁ _ _ _
  refine Proceed.bind (n := 0) ?_ hab₁ fun quality s₂ t₂ hab₂ _ _ => ?_
  · unfold qualityOf
    split
    · exact .reject hab₁
    · split
      · exact .pure hab₁ rfl
      · exact .reject hab₁
  · split
    · exact .pure hab₂ (by omega)
    · exact .reject hab₂

theorem addQualities_proceed (words : List Token) (hab : Abreast corr s t)
    (qualities : QualitySet) :
    Proceed corr 0 (words.foldlM (fun qualities _ => addQuality qualities) qualities)
      (words.foldlM (fun qualities _ => addQuality qualities) qualities) s t := by
  induction words generalizing s t qualities with
  | nil => exact .pure hab rfl
  | cons word words ih =>
    simp only [List.foldlM_cons]
    exact (addQuality_proceed frame hab qualities).bind hab fun grown _ _ hab' _ _ => ih hab' grown

theorem qualitiesWhile_proceed (hab : Abreast corr s t) (test : Token → Bool) :
    Proceed corr 0 (qualitiesWhile test) (qualitiesWhile test) s t := by
  have hs : qualitiesWhile test s = (s.cursor.ahead.takeWhile test).foldlM
    (fun qualities _ => addQuality qualities) QualitySet.empty s := rfl
  have ht : qualitiesWhile test t = (t.cursor.ahead.takeWhile test).foldlM
    (fun qualities _ => addQuality qualities) QualitySet.empty t := rfl
  unfold Proceed Agree
  rw [hs, ht, ← frame.ahead hab.corr]
  exact addQualities_proceed frame _ hab _

theorem postfixedQualities_proceed (hab : Abreast corr s t) :
    Proceed corr 0 postfixedQualities postfixedQualities s t := by
  unfold postfixedQualities
  refine Proceed.peek_bind frame hab ?_
  split
  · exact qualitiesWhile_proceed frame hab _
  · exact .reject hab

theorem withPostfixedQualities_proceed (hab : Abreast corr s t) (type : DataType) :
    Proceed corr 0 (withPostfixedQualities type) (withPostfixedQualities type) s t := by
  unfold withPostfixedQualities
  refine Proceed.takeOperator_bind frame hab (fun s₁ t₁ hab₁ _ hfwd _ => ?_)
    fun _ => .pure hab rfl
  have hpast : 0 < s₁.past := by
    have := hfwd.past_le
    omega
  refine Proceed.previousLine_bind frame hab₁ hpast ?_
  apply (postfixedQualities_proceed frame hab₁).bind hab₁
  intro qualities s₂ t₂ hab₂ _ _
  split
  · exact .pure hab₂ (by omega)
  · exact .reject hab₂

end Qualities

/-! ## Parts of types -/

section Parts

variable (frame : Session.Frame corr)

include frame

theorem record_proceed (hab : Abreast corr s t) (diagnostic : Diagnostic) :
    Proceed corr 0 (record diagnostic) (record diagnostic) s t :=
  EndsAlike.ok (frame.record hab.corr diagnostic) ⟨⟨hab.tidy.closed, hab.tidy.passed⟩, rfl, le_rfl⟩

theorem expectClosingAngle_proceed (hab : Abreast corr s t) :
    Proceed corr 0 expectClosingAngle expectClosingAngle s t := by
  unfold expectClosingAngle
  refine Proceed.peek_bind frame hab ?_
  split
  next hangle =>
    split
    next c d ds htext =>
      exact EndsAlike.ok (frame.split hab.corr hangle htext (by simp))
        (.replaceText hab.tidy _)
    next =>
      exact EndsAlike.ok (frame.advance hab.corr)
        ((Session.Forward.advance_min hab.tidy).weaken (Nat.zero_le _))
  next => exact .reject hab

theorem expectOpeningAngle_proceed (hab : Abreast corr s t) (rule : String) (line : ℕ) :
    Proceed corr 1 (expectOpeningAngle rule line) (expectOpeningAngle rule line) s t := by
  unfold expectOpeningAngle
  refine Proceed.takeOperator_bind frame hab (fun s₁ t₁ hab₁ _ _ _ => ?_) fun _ => ?_
  · exact .pure hab₁ rfl
  · exact .reject hab

theorem noteVainQualities_proceed (hab : Abreast corr s t) (type : DataType) (line : ℕ) :
    Proceed corr 0 (noteVainQualities type line) (noteVainQualities type line) s t := by
  have hnotes : ∀ (qualities : List Quality) {s t : Session}, Abreast corr s t →
      Proceed corr 0
        (qualities.forM fun quality =>
          note s!"Quality '{quality.word}' has no effect on type '{type.kind.word}'" line)
        (qualities.forM fun quality =>
          note s!"Quality '{quality.word}' has no effect on type '{type.kind.word}'" line) s t := by
    intro qualities
    induction qualities with
    | nil => exact fun hab => .pure hab rfl
    | cons quality qualities ih =>
      intro s t hab
      simp only [List.forM]
      exact (record_proceed frame hab _).bind hab fun _ _ _ hab₁ _ _ => ih hab₁
  unfold noteVainQualities
  apply (hnotes _ hab).bind hab
  intro _ s₁ t₁ hab₁ _ _
  split
  · exact record_proceed frame hab₁ _
  · exact .pure hab₁ rfl

omit frame in
theorem simpleType_proceed (hab : Abreast corr s t) (word : Token) (qualities : QualitySet) :
    Proceed corr 0 (simpleType word qualities) (simpleType word qualities) s t := by
  unfold simpleType
  split
  · split
    · split
      · exact .reject hab
      · exact .pure hab rfl
    · exact .pure hab rfl
  · exact .reject hab

variable {bound : ℕ} {parse parse' : Descent} (h : AgreeBelow corr bound parse parse')

include h

theorem containedType_proceed (hab : Abreast corr s t)
    (hrank : Goal.typeName.rank s.left < bound) :
    Proceed corr (min 1 s.left) (containedType parse) (containedType parse') s t := by
  unfold containedType
  apply Proceed.bind (h .typeName s t hab hrank) hab
  intro type s₁ t₁ hab₁ _ _
  exact (withPostfixedQualities_proceed frame hab₁ type).weaken (by simp [Goal.length])

theorem enclosedType_proceed (hab : Abreast corr s t)
    (hrank : Goal.typeName.rank s.left < bound) :
    Proceed corr (min 1 s.left) (enclosedType parse) (enclosedType parse') s t := by
  unfold enclosedType
  apply (containedType_proceed frame h hab hrank).bind hab
  intro type s₁ t₁ hab₁ _ _
  apply (expectClosingAngle_proceed frame hab₁).bind hab₁
  intro _ s₂ t₂ hab₂ _ _
  exact .pure hab₂ (by omega)

theorem indirectType_proceed (hab : Abreast corr s t) (make : DataType → DataType) (line : ℕ)
    (hrank : 0 < s.left → 3 * s.left < bound + 2) :
    Proceed corr 0 (indirectType parse make line) (indirectType parse' make line) s t := by
  unfold indirectType
  apply (expectOpeningAngle_proceed frame hab _ _).bind hab
  intro _ s₁ t₁ hab₁ _ hn₁
  apply (enclosedType_proceed frame h hab₁ (by simp only [Goal.rank]; omega)).bind hab₁
  intro type s₂ t₂ hab₂ _ _
  exact .pure hab₂ (by omega)

theorem arrayType_proceed (hab : Abreast corr s t) (qualities : QualitySet) (line : ℕ)
    (hrank : 0 < s.left → 3 * s.left + 2 < bound) :
    Proceed corr 0 (arrayType parse qualities line) (arrayType parse' qualities line) s t := by
  unfold arrayType
  apply (expectOpeningAngle_proceed frame hab _ _).bind hab
  intro _ s₁ t₁ hab₁ _ hn₁
  refine Proceed.peek_bind frame hab₁ ?_
  refine Proceed.ite (fun _ => ?_) fun _ => ?_
  · apply (enclosedType_proceed frame h hab₁ (by simp only [Goal.rank]; omega)).bind hab₁
    intro type s₂ t₂ hab₂ _ _
    exact .pure hab₂ (by omega)
  · apply Proceed.bind (h (.expression {}) s₁ t₁ hab₁ (by simp only [Goal.rank]; omega)) hab₁
    intro length s₂ t₂ hab₂ _ hn₂
    refine Proceed.takePunctuation_bind frame hab₂ (fun s₃ t₃ hab₃ _ _ hn₃ => ?_) fun _ => ?_
    · apply (enclosedType_proceed frame h hab₃ (by simp only [Goal.rank]; omega)).bind hab₃
      intro type s₄ t₄ hab₄ _ _
      exact .pure hab₄ (by omega)
    · exact .reject_bind hab₂

theorem tupleMembers_proceed (hab : Abreast corr s t)
    (hrank : Goal.members.rank s.left ≤ bound) :
    Proceed corr 0 (tupleMembers parse) (tupleMembers parse') s t := by
  unfold tupleMembers
  refine Proceed.peek_bind frame hab ?_
  refine Proceed.ite (fun hword => ?_) fun _ => .pure hab rfl
  have hleft : 0 < s.left := by
    rw [Session.left_pos_iff]
    intro heof
    simp [heof] at hword
  simp only [Goal.rank] at hrank
  apply (containedType_proceed frame h hab (by simp only [Goal.rank]; omega)).bind hab
  intro member s₁ t₁ hab₁ _ hn₁
  have hmore : ∀ {s₂ t₂ : Session}, Abreast corr s₂ t₂ → s₂.left ≤ s₁.left →
      Proceed corr 0 (do return member :: (← parse .members))
        (do return member :: (← parse' .members)) s₂ t₂ := fun {s₂ t₂} hab₂ hle =>
    Proceed.bind (h .members s₂ t₂ hab₂ (by simp only [Goal.rank]; omega)) hab₂
      fun members s₃ t₃ hab₃ _ _ => .pure hab₃ (by omega)
  refine Proceed.takePunctuation_bind frame hab₁ (fun s₂ t₂ hab₂ _ _ hn₂ => ?_) fun _ => ?_
  · exact (hmore hab₂ (by omega)).weaken (by omega)
  · refine Proceed.peek_bind frame hab₁ ?_
    refine Proceed.ite (fun _ => ?_) fun _ => .reject_bind hab₁
    exact (hmore hab₁ le_rfl).weaken (by omega)

theorem tupleType_proceed (hab : Abreast corr s t) (qualities : QualitySet) (line : ℕ)
    (hrank : 0 < s.left → 3 * s.left < bound + 1) :
    Proceed corr 0 (tupleType parse qualities line) (tupleType parse' qualities line) s t := by
  unfold tupleType
  apply (expectOpeningAngle_proceed frame hab _ _).bind hab
  intro _ s₁ t₁ hab₁ _ hn₁
  apply Proceed.bind (h .members s₁ t₁ hab₁ (by simp only [Goal.rank]; omega)) hab₁
  intro members s₂ t₂ hab₂ _ _
  apply (expectClosingAngle_proceed frame hab₂).bind hab₂
  intro _ s₃ t₃ hab₃ _ _
  split
  · exact .reject_bind hab₃
  · exact (record_proceed frame hab₃ _).bind hab₃ fun _ s₄ t₄ hab₄ _ _ => .pure hab₄ (by omega)
  · exact .pure hab₃ (by omega)

theorem typeFrom_proceed (hab : Abreast corr s t) (qualities : QualitySet) (word : Token)
    (hrank : 0 < s.left → 3 * s.left + 2 < bound) :
    Proceed corr 0 (typeFrom parse qualities word) (typeFrom parse' qualities word) s t := by
  unfold typeFrom
  refine .ite (fun _ => ?_) fun _ => .ite (fun _ => ?_) fun _ => .ite (fun _ => ?_) fun _ =>
    .ite (fun _ => ?_) fun _ => ?_
  · exact indirectType_proceed frame h hab _ _ (by omega)
  · exact indirectType_proceed frame h hab _ _ (by omega)
  · exact arrayType_proceed frame h hab _ _ hrank
  · exact tupleType_proceed frame h hab _ _ (by omega)
  · exact simpleType_proceed hab word qualities

theorem typeNameRule_proceed (hab : Abreast corr s t)
    (hrank : Goal.typeName.rank s.left ≤ bound) :
    Proceed corr (min 1 s.left) (typeNameRule parse) (typeNameRule parse') s t := by
  simp only [Goal.rank] at hrank
  unfold typeNameRule
  refine Proceed.currentLine_bind frame hab ?_
  apply (qualitiesWhile_proceed frame hab _).bind_min hab
  intro qualities s₁ t₁ hab₁ hn₁
  apply Proceed.advance_bind frame hab₁
  intro word s₂ t₂ hab₂ _ _ hn₂
  apply (typeFrom_proceed frame h hab₂ qualities word (by omega)).bind hab₂
  intro type s₃ t₃ hab₃ _ _
  apply (noteVainQualities_proceed frame hab₃ type _).bind hab₃
  intro _ s₄ t₄ hab₄ _ _
  exact .pure hab₄ (by omega)

end Parts

end Parser

end SinFrontend
