import SinFrontend.Proofs.Seam

/-!
# Types over a common text

The readers of qualities and of types end alike over a common text, as long as the readings that
they ask for do. A type never ends loosely: what it needs to be complete is no mark.

* `Seam.Transfers`: readings that end alike over a common text, each as strictly as it does.
* `typeNameRule_carries`: so does the reading of types.
-/

namespace SinFrontend

/-- Readings that end alike over a common text. Expressions inside brackets or braces, and the
    elements of lists, are loose. In front of the semicolon no expression begins, and operations
    and elements end. -/
structure Seam.Transfers (seam : Seam) (parse : Descent) : Prop where
  typeName : ∀ ⦃text s t⦄, seam.Joins text s t →
    seam.Carries False (parse .typeName) (parse .typeName) s t
  members : ∀ ⦃text s t⦄, seam.Joins text s t →
    seam.Carries False (parse .members) (parse .members) s t
  expression : ∀ context ⦃text s t⦄, seam.Joins text s t →
    seam.Carries (context.closing ≠ .paren) (parse (.expression context))
      (parse (.expression context)) s t
  operations : ∀ left floor context ⦃text s t⦄, seam.Joins text s t →
    seam.Carries (context.closing ≠ .paren) (parse (.operations left floor context))
      (parse (.operations left floor context)) s t
  elements : ∀ context ⦃text s t⦄, seam.Joins text s t →
    seam.Carries True (parse (.elements context)) (parse (.elements context)) s t
  initializers : ∀ ⦃text s t⦄, seam.Joins text s t →
    seam.Carries False (parse .initializers) (parse .initializers) s t
  expression_stays : ∀ context ⦃s⦄, seam.Reached s →
    seam.Stays False (parse (.expression context)) s
  operations_stays : ∀ left floor context ⦃s⦄, seam.Reached s →
    seam.Stays True (parse (.operations left floor context)) s
  elements_stays : ∀ context ⦃s⦄, seam.Reached s → seam.Stays True (parse (.elements context)) s

namespace Parser

variable {seam : Seam} {text more : List Token} {token : Token} {s t : Session} {loose : Prop}

/-! ## Qualities -/

theorem qualityOf_carries (h : seam.Joins text s t) (token : Token) :
    seam.Carries loose (qualityOf token) (qualityOf token) s t := by
  unfold qualityOf
  refine .ite (fun _ => .reject) fun _ => ?_
  split
  · exact .pure h
  · exact .reject

/-- A quality is one token, whatever comes of it. -/
theorem advance_of_addQuality {qualities grown : QualitySet} {s' : Session}
    (h : addQuality qualities s = .ok grown s') : s' = s.on .advance := by
  rcases qualityOf_run (s.on .advance).cursor.previous (s.on .advance) with
    ⟨quality, -, hquality⟩ | ⟨error, herror⟩
  · simp only [addQuality, bind_run, advance_run, hquality] at h
    cases hadd : qualities.add quality with
    | ok _ =>
      rw [hadd] at h
      cases h
      rfl
    | error _ =>
      rw [hadd] at h
      cases h
  · simp only [addQuality, bind_run, advance_run, herror] at h
    cases h

theorem addQuality_run (h : seam.Joins (token :: more) s t) {qualities grown : QualitySet}
    {s' : Session} (hrun : addQuality qualities s = .ok grown s') :
    addQuality qualities t = .ok grown (t.on .advance) ∧ seam.Joins more s' (t.on .advance) := by
  have hcarries : seam.Carries False (addQuality qualities) (addQuality qualities) s t := by
    refine .advance_bind h fun hmore _ => (qualityOf_carries hmore token).bind_strict ?_
    intro quality text₁ s₁ t₁ h₁
    split
    · exact .pure h₁
    · exact .reject
  rcases hcarries hrun with ⟨-, t', ht', -⟩ | ⟨hfalse, -⟩
  · rw [advance_of_addQuality ht'] at ht'
    exact ⟨ht', advance_of_addQuality hrun ▸ h.advance.1⟩
  · exact hfalse.elim

/-- The words of qualities are no marks, so that both sessions see the same ones. -/
theorem qualitiesWhile_carries (h : seam.Joins text s t) {test : Token → Bool}
    (hsemicolon : test seam.semicolon = false) (hstop : test seam.stop = false) :
    seam.Carries loose (qualitiesWhile test) (qualitiesWhile test) s t := by
  have hwords : ∀ (words more : List Token) (start : QualitySet) {s t : Session},
      seam.Joins (words ++ more) s t → seam.Carries loose
        (words.foldlM (fun qualities _ => addQuality qualities) start)
        (words.foldlM (fun qualities _ => addQuality qualities) start) s t := by
    intro words
    induction words with
    | nil => exact fun _ _ _ _ h => .pure h
    | cons word words ih =>
      intro more start s t h set later hrun
      rw [List.foldlM_cons] at hrun ⊢
      obtain ⟨grown, s₁, hfirst, hrun⟩ := exists_of_bind hrun
      obtain ⟨hfirst', h₁⟩ := addQuality_run h hfirst
      rw [bind_run, hfirst']
      exact ih more grown h₁ hrun
  obtain ⟨hs, ht⟩ := h.takeWhile_eq hsemicolon hstop
  intro set later hrun
  change (s.cursor.ahead.takeWhile test).foldlM (fun qualities _ => addQuality qualities)
    QualitySet.empty s = _ at hrun
  change (∃ text' t', (t.cursor.ahead.takeWhile test).foldlM
    (fun qualities _ => addQuality qualities) QualitySet.empty t = _ ∧ _) ∨ _
  rw [hs] at hrun
  rw [ht]
  exact hwords _ (text.dropWhile test) .empty (by rwa [List.takeWhile_append_dropWhile]) hrun

theorem prefixedQualities_carries (h : seam.Joins text s t) :
    seam.Carries loose prefixedQualities prefixedQualities s t :=
  qualitiesWhile_carries h (by simp [Seam.semicolon_kind]) (by simp [Seam.stop_kind])

theorem postfixedQualities_carries (h : seam.Joins text s t) :
    seam.Carries loose postfixedQualities postfixedQualities s t := by
  refine .peek_bind ?_
  rw [h.kind_eq]
  refine .ite (fun _ => ?_) fun _ => .reject
  exact qualitiesWhile_carries h (by simp [Seam.semicolon_kind]) (by simp [Seam.stop_kind])

theorem withPostfixedQualities_carries (h : seam.Joins text s t) (type : DataType) :
    seam.Carries loose (withPostfixedQualities type) (withPostfixedQualities type) s t := by
  refine Seam.Carries.bind_strict (.takeOperator h "&") fun taken text₁ s₁ t₁ h₁ => ?_
  refine .ite (fun _ => .previousLine_bind ?_) fun _ => .pure h₁
  refine (postfixedQualities_carries h₁).bind_strict fun qualities text₂ s₂ t₂ h₂ => ?_
  split
  · exact .pure h₂
  · exact .reject

/-! ## Brackets -/

theorem expectClosingAngle_carries (h : seam.Joins text s t) :
    seam.Carries loose expectClosingAngle expectClosingAngle s t := by
  refine .peek_bind ?_
  cases text with
  | nil =>
    have hmark : isClosingAngle s.cursor.current = false := by
      simp [isClosingAngle, h.reached.kind]
    rw [hmark]
    exact .reject
  | cons token more =>
    obtain ⟨hs, ht⟩ := h.current_cons
    rw [hs, ht]
    refine .ite (fun _ => ?_) fun _ => .reject
    split
    next first others _ =>
      intro a later hrun
      cases hrun
      exact .inl ⟨_, _, rfl, h.replaceText (String.ofList (first :: others))⟩
    next =>
      intro a later hrun
      cases hrun
      exact .inl ⟨more, _, rfl, h.advance.1⟩

theorem expectOpeningAngle_carries (h : seam.Joins text s t) (rule : String) (line line' : ℕ) :
    seam.Carries loose (expectOpeningAngle rule line) (expectOpeningAngle rule line') s t :=
  Seam.Carries.bind_strict (.takeOperator h "<") fun _ _ _ _ h₁ =>
    .ite (fun _ => .pure h₁) fun _ => .reject

/-! ## Types of single words -/

theorem simpleType_carries (h : seam.Joins text s t) (word : Token) (qualities : QualitySet) :
    seam.Carries loose (simpleType word qualities) (simpleType word qualities) s t := by
  unfold simpleType
  refine .ite (fun _ => ?_) fun _ => .reject
  split
  · exact .ite (fun _ => .reject) fun _ => .pure h
  · exact .pure h

theorem noteVainQualities_carries (h : seam.Joins text s t) (type : DataType) (line line' : ℕ) :
    seam.Carries loose (noteVainQualities type line) (noteVainQualities type line') s t := by
  have hnotes : ∀ (qualities : List Quality) {text : List Token} {s t : Session},
      seam.Joins text s t → seam.Carries False
        (qualities.forM fun quality =>
          note s!"Quality '{quality.word}' has no effect on type '{type.kind.word}'" line)
        (qualities.forM fun quality =>
          note s!"Quality '{quality.word}' has no effect on type '{type.kind.word}'" line')
        s t := by
    intro qualities
    induction qualities with
    | nil => exact fun h => .pure h
    | cons quality qualities ih =>
      intro text s t h
      exact Seam.Carries.bind_strict (.record h _ _) fun _ _ _ _ h₁ => ih h₁
  refine (hnotes _ h).bind_strict fun _ text₁ s₁ t₁ h₁ => .ite (fun _ => ?_) fun _ => .pure h₁
  exact .record h₁ _ _

/-! ## Types -/

variable {parse : Descent} (hparse : seam.Transfers parse)

include hparse

theorem containedType_carries (h : seam.Joins text s t) :
    seam.Carries False (containedType parse) (containedType parse) s t :=
  (hparse.typeName h).bind_strict fun type _ _ _ h₁ => withPostfixedQualities_carries h₁ type

theorem enclosedType_carries (h : seam.Joins text s t) :
    seam.Carries False (enclosedType parse) (enclosedType parse) s t :=
  (containedType_carries hparse h).bind_strict fun _ _ _ _ h₁ =>
    Seam.Carries.bind_strict (expectClosingAngle_carries h₁) fun _ _ _ _ h₂ => .pure h₂

theorem indirectType_carries (h : seam.Joins text s t) (make : DataType → DataType)
    (line line' : ℕ) :
    seam.Carries False (indirectType parse make line) (indirectType parse make line') s t :=
  Seam.Carries.bind_strict (expectOpeningAngle_carries h _ line line') fun _ _ _ _ h₁ =>
    (enclosedType_carries hparse h₁).map make

theorem arrayType_carries (h : seam.Joins text s t) (qualities : QualitySet) (line line' : ℕ) :
    seam.Carries False (arrayType parse qualities line) (arrayType parse qualities line') s t := by
  unfold arrayType
  refine Seam.Carries.bind_strict (expectOpeningAngle_carries h _ line line') ?_
  refine fun _ text₁ s₁ t₁ h₁ => .peek_bind ?_
  rw [h₁.kind_eq]
  refine .ite (fun _ => (enclosedType_carries hparse h₁).map _) fun _ => ?_
  have hlength : seam.Carries False (parse (.expression {})) (parse (.expression {})) s₁ t₁ :=
    (hparse.expression {} h₁).weaken fun hne => hne rfl
  refine hlength.bind_strict fun length text₂ s₂ t₂ h₂ => ?_
  -- In front of the semicolon no comma follows the length.
  refine .takeComma_bind h₂ (fun text₃ s₃ t₃ h₃ => ?_) .reject_bind fun _ => .of_error rfl
  exact (enclosedType_carries hparse h₃).map _

theorem tupleMembers_carries (h : seam.Joins text s t) :
    seam.Carries False (tupleMembers parse) (tupleMembers parse) s t := by
  have hmore (member : DataType) {text : List Token} {s t : Session} (h : seam.Joins text s t) :
      seam.Carries False (do return member :: (← parse .members))
        (do return member :: (← parse .members)) s t :=
    (hparse.members h).map _
  refine .peek_bind ?_
  rw [h.kind_eq]
  refine .ite (fun _ => ?_) fun _ => .pure h
  refine (containedType_carries hparse h).bind_strict fun member text₁ s₁ t₁ h₁ => ?_
  refine .takeComma_bind h₁ (fun _ _ _ h₂ => hmore member h₂) (.peek_bind ?_) fun hreached => ?_
  · have hangle : isClosingAngle s₁.cursor.current = isClosingAngle t₁.cursor.current :=
      h₁.test_eq _ (by simp [isClosingAngle, Seam.semicolon_kind])
        (by simp [isClosingAngle, Seam.stop_kind])
    rw [hangle]
    exact .ite (fun _ => hmore member h₁) fun _ => .reject_bind
  · have hangle : isClosingAngle s₁.cursor.current = false := by
      simp [isClosingAngle, hreached.kind]
    intro a later hrun
    simp [hangle] at hrun

theorem tupleType_carries (h : seam.Joins text s t) (qualities : QualitySet) (line line' : ℕ) :
    seam.Carries False (tupleType parse qualities line) (tupleType parse qualities line') s t := by
  unfold tupleType
  refine Seam.Carries.bind_strict (expectOpeningAngle_carries h _ line line') ?_
  refine fun _ text₁ s₁ t₁ h₁ => (hparse.members h₁).bind_strict ?_
  refine fun members text₂ s₂ t₂ h₂ => Seam.Carries.bind_strict (expectClosingAngle_carries h₂) ?_
  intro _ text₃ s₃ t₃ h₃
  split
  · exact .reject_bind
  · exact Seam.Carries.bind_strict (.record h₃ _ _) fun _ _ _ _ h₄ => .pure h₄
  · exact .pure h₃

theorem typeFrom_carries (h : seam.Joins text s t) (qualities : QualitySet) (word : Token) :
    seam.Carries False (typeFrom parse qualities word) (typeFrom parse qualities word) s t := by
  unfold typeFrom
  refine .ite (fun _ => ?_) fun _ => .ite (fun _ => ?_) fun _ => .ite (fun _ => ?_) fun _ =>
    .ite (fun _ => ?_) fun _ => ?_
  · exact indirectType_carries hparse h _ _ _
  · exact indirectType_carries hparse h _ _ _
  · exact arrayType_carries hparse h qualities _ _
  · exact tupleType_carries hparse h qualities _ _
  · exact simpleType_carries h word qualities

/-- A mark begins no type. -/
theorem typeNameRule_carries (h : seam.Joins text s t) :
    seam.Carries False (typeNameRule parse) (typeNameRule parse) s t := by
  refine .currentLine_bind ?_
  refine (prefixedQualities_carries h).bind_strict fun qualities text₁ s₁ t₁ h₁ => ?_
  cases text₁ with
  | nil =>
    intro type later hrun
    rw [bind_run, advance_run, h₁.reached.advance] at hrun
    have hform {kind : Token.Kind} (hkind : kind ≠ .punctuation) (word : String) :
        seam.semicolon.hasForm kind word = false :=
      Seam.hasForm_mark Seam.semicolon_kind hkind word
    simp [typeFrom, simpleType, Token.isKeyword, hform, Seam.semicolon_kind] at hrun
  | cons word more =>
    refine .advance_bind h₁ fun h₂ _ => ?_
    refine (typeFrom_carries hparse h₂ qualities word).bind_strict fun type text₃ s₃ t₃ h₃ => ?_
    refine (noteVainQualities_carries h₃ type _ _).bind_strict fun _ _ _ _ h₄ => .pure h₄

end Parser

end SinFrontend
