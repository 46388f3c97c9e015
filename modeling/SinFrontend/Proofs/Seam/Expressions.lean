import SinFrontend.Proofs.Seam.Types

/-!
# Expressions over a common text

The readers of operands, operations and constructions end alike over a common text, as long as the
readings that they ask for do, and so does every number of steps of the descent.

What is loose is what may stop at a semicolon and not at every other mark: an expression or
operations inside brackets or braces, and the elements of a list. The groups, indices and
constructions around them are not loose, for their closing symbols are missing in front of the
semicolon.

* `descend_transfers`: all readings in a number of steps end alike over a common text.
-/

namespace SinFrontend.Parser

variable {seam : Seam} {text more : List Token} {token : Token} {s t : Session} {loose : Prop}

/-! ## Marks behind an operand -/

theorem markedOperand_unmarked (h : s.cursor.current.isOperator "&" = false)
    (operand : Expression) : markedOperand operand s = .ok (operand, false) s := by
  simp [markedOperand, atPostfixedMark, h]

theorem overrideQualities_carries (h : seam.Joins text s t) (operand : Expression) :
    seam.Carries loose (overrideQualities operand) (overrideQualities operand) s t := by
  refine .currentLine_bind ?_
  refine Seam.Carries.bind_strict (p := explaining postfixedQualities _)
    (q := explaining postfixedQualities _) ?_ fun qualities text₁ s₁ t₁ h₁ => ?_
  · intro qualities later hrun
    have hcarries : seam.Carries False postfixedQualities postfixedQualities s t :=
      postfixedQualities_carries h
    rcases hcarries (run_of_explaining hrun) with ⟨text', t', ht', h'⟩ | ⟨hfalse, -⟩
    · exact .inl ⟨text', t', by rw [explaining_run, ht'], h'⟩
    · exact hfalse.elim
  · split
    · exact .pure h₁
    · exact .reject
    · exact .reject

theorem markedOperand_carries (h : seam.Joins text s t) (operand : Expression) :
    seam.Carries loose (markedOperand operand) (markedOperand operand) s t := by
  have hand : s.cursor.current.isOperator "&" = t.cursor.current.isOperator "&" :=
    h.hasForm_eq (by decide) "&"
  cases text with
  | nil =>
    have hmark : s.cursor.current.isOperator "&" = false := h.reached.hasForm (by decide) "&"
    intro marked later hrun
    rw [markedOperand_unmarked hmark] at hrun
    cases hrun
    exact .inl ⟨[], t, markedOperand_unmarked (hand ▸ hmark) operand, h⟩
  | cons token more =>
    unfold markedOperand atPostfixedMark
    simp only [bind_assoc, pure_bind]
    refine .peek_bind ?_
    rw [hand]
    refine .keywordFollows_bind h fun follows => .ite (fun _ => ?_) fun _ => .pure h
    refine .move_bind h fun h₁ => Seam.Carries.bind_strict (.takeKeyword h₁ _) ?_
    refine fun taken text₂ s₂ t₂ h₂ => .ite (fun _ => .pure h₂) fun _ => ?_
    exact (overrideQualities_carries h₂ operand).bind_strict fun _ _ _ _ h₃ => .pure h₃

variable {parse : Descent} (hparse : seam.Transfers parse)

include hparse

/-! ## Constructions -/

theorem initializersRule_carries (h : seam.Joins text s t) :
    seam.Carries False (initializersRule parse) (initializersRule parse) s t := by
  have hmore (initializer : Initializer) {text : List Token} {s t : Session}
      (h : seam.Joins text s t) :
      seam.Carries False (do return initializer :: (← parse .initializers))
        (do return initializer :: (← parse .initializers)) s t :=
    (hparse.initializers h).map _
  refine .peek_bind ?_
  rw [h.kind_eq, h.isPunctuation_eq (by decide) (by decide) (by decide)]
  refine .ite (fun _ => .pure h) fun _ => ?_
  refine (hparse.expression _ h).bind (fun _ member s₁ h₁ => ?_) fun member text₁ s₁ t₁ h₁ => ?_
  · -- Behind the semicolon there is no `:`.
    intro a later hrun
    have hmark : s₁.cursor.current.isOperator ":" = false := h₁.hasForm (by decide) ":"
    simp [hmark] at hrun
  refine Seam.Carries.bind_strict (.takeOperator h₁ ":") fun taken text₂ s₂ t₂ h₂ => ?_
  refine .ite (fun _ => ?_) fun _ => .currentLine_bind .reject_bind
  refine (hparse.expression _ h₂).bind (fun _ value s₃ h₃ => ?_) fun value text₃ s₃ t₃ h₃ => ?_
  · intro a later hrun
    simp [h₃.isPunctuation, Grouping.closing] at hrun
  · refine .takeComma_bind h₃ (fun _ _ _ h₄ => hmore ⟨member, value⟩ h₄)
      (.atPunctuation_bind ?_) fun h₄ => ?_
    · rw [h₃.isPunctuation_eq (by decide) (by decide) (by decide)]
      exact .ite (fun _ => hmore ⟨member, value⟩ h₃) fun _ => .currentLine_bind .reject_bind
    · intro a later hrun
      simp [h₄.isPunctuation, Grouping.closing] at hrun

theorem construction_carries (h : seam.Joins text s t) (explicitType : Option String) :
    seam.Carries False (construction parse explicitType) (construction parse explicitType)
      s t := by
  have hclose (value : Expression) {text : List Token} {s t : Session} (h : seam.Joins text s t) :
      seam.Carries False
        (do expectPunctuation Grouping.brace.closing "to close construction"; return value)
        (do expectPunctuation Grouping.brace.closing "to close construction"; return value) s t :=
    Seam.Carries.bind_strict (.expectPunctuation h (by decide) _) fun _ _ _ _ h₁ => .pure h₁
  unfold construction
  refine Seam.Carries.bind_strict (.expectPunctuation h (by decide) _) fun _ text₁ s₁ t₁ h₁ => ?_
  refine (hparse.initializers h₁).bind_strict fun initializers text₂ s₂ t₂ h₂ => ?_
  refine Seam.Carries.bind_strict (.takeKeyword h₂ _) fun hasDefault text₃ s₃ t₃ h₃ => ?_
  refine .ite (fun _ => ?_) fun _ => hclose _ h₃
  show seam.Carries False (((fun _ => ()) <$> takePunctuation ",") >>= _)
    (((fun _ => ()) <$> takePunctuation ",") >>= _) s₃ t₃
  rw [bind_map_left]
  refine .takeComma_bind h₃ (fun _ _ _ h₄ => hclose _ h₄) (hclose _ h₃) fun h₄ => ?_
  exact Seam.Stays.bind_strict (.expectPunctuation h₄ (by decide) _)

omit hparse in
theorem constructedType_carries (h : seam.Joins text s t) :
    seam.Carries loose constructedType constructedType s t := by
  refine .peek_bind ?_
  rw [h.kind_eq]
  refine .ite (fun hword => ?_) fun _ => .pure h
  cases text with
  | nil =>
    rw [h.current_nil, Seam.stop_kind] at hword
    cases hword
  | cons token more => exact .advance_bind h fun h₁ _ => .pure h₁

/-! ## Groups -/

theorem elementsRule_carries (h : seam.Joins text s t) (context : Context) :
    seam.Carries True (elementsRule parse context) (elementsRule parse context) s t := by
  unfold elementsRule
  refine .takeComma_bind h (fun more s₁ t₁ h₁ => ?_) (.pure h) fun h₁ => .pure trivial h₁
  refine (hparse.expression context h₁).bind (fun _ element s₂ h₂ => ?_)
    fun element text₂ s₂ t₂ h₂ => ?_
  · exact (hparse.elements_stays context h₂).bind fun _ _ _ h₃ => .pure trivial h₃
  · exact (hparse.elements context h₂).map _

omit hparse in
theorem elementsRule_stays (h : seam.Reached s) (context : Context) :
    seam.Stays True (elementsRule parse context) s := by
  intro elements later hrun
  simp only [elementsRule, bind_run, takePunctuation_run, h.isPunctuation (by decide : "," ≠ ";"),
    Bool.false_eq_true, if_false, pure_run] at hrun
  cases hrun
  exact ⟨trivial, h⟩

omit hparse in
theorem closing_ne_semicolon (opened : Grouping) : opened.closing ≠ ";" := by
  cases opened <;> decide

omit hparse in
/-- Which list a group may enclose is looked up without reading. -/
theorem listKindOf_bind_carries {β : Type} (opened : Grouping) {f : ListKind → Parser β}
    (hf : ∀ kind, seam.Carries loose (f kind) (f kind) s t) :
    seam.Carries loose (listKindOf opened >>= f) (listKindOf opened >>= f) s t := by
  unfold listKindOf
  cases opened.listKind? with
  | none =>
    intro value later hrun
    cases hrun
  | some kind => exact hf kind

/-- The inside of a group must be followed by its closing symbol. -/
theorem group_carries (h : seam.Joins text s t) (opened : Grouping) :
    seam.Carries False (group parse opened) (group parse opened) s t := by
  have hclose {value : Expression × Bool} {message : String} {text : List Token} {s t : Session}
      (h : seam.Joins text s t) : seam.Carries False
        (do expectPunctuation opened.closing message; return value)
        (do expectPunctuation opened.closing message; return value) s t :=
    Seam.Carries.bind_strict (.expectPunctuation h (closing_ne_semicolon opened) _)
      fun _ _ _ _ h₁ => .pure h₁
  have hmissing {value : Expression × Bool} {message : String} {s : Session}
      (h : seam.Reached s) : seam.Stays False
        (do expectPunctuation opened.closing message; return value) s :=
    Seam.Stays.bind_strict (.expectPunctuation h (closing_ne_semicolon opened) _)
  unfold group
  refine .atPunctuation_bind ?_
  cases text with
  | nil =>
    rw [h.reached.isPunctuation (closing_ne_semicolon opened)]
    exact .of_stays (hparse.expression_stays _ h.reached).bind_strict
  | cons token more =>
    rw [h.current_cons.1, h.current_cons.2]
    refine .ite (fun _ => ?_) fun _ => ?_
    · exact listKindOf_bind_carries opened fun kind => .move_bind h fun h₁ => .pure h₁
    refine (hparse.expression _ h).bind (fun _ first s₁ h₁ => ?_) fun first text₁ s₁ t₁ h₁ => ?_
    · intro value later hrun
      rw [bind_run, atPunctuation_run, h₁.isPunctuation (by decide)] at hrun
      exact hmissing h₁ hrun
    cases text₁ with
    | nil =>
      refine .atPunctuation_bind ?_
      rw [h₁.reached.isPunctuation (by decide)]
      exact .of_stays (hmissing h₁.reached)
    | cons next text₁ =>
      refine .atPunctuation_bind ?_
      rw [h₁.current_cons.1, h₁.current_cons.2]
      refine .ite (fun _ => listKindOf_bind_carries opened fun kind => ?_) fun _ => hclose h₁
      exact (hparse.elements _ h₁).bind (fun _ elements s₂ h₂ => hmissing h₂)
        fun elements text₂ s₂ t₂ h₂ => hclose h₂

/-! ## Operands -/

theorem unary_carries (h : seam.Joins text s t) (context : Context) (op : Operator) :
    seam.Carries (context.closing ≠ .paren) (unary parse context op) (unary parse context op)
      s t :=
  (hparse.expression (context.operand op.precedence) h).map fun operand =>
    Expression.unary op operand operand.isConst

theorem operatorOperand_carries (h : seam.Joins text s t) (context : Context) (token : Token) :
    seam.Carries (context.closing ≠ .paren) (operatorOperand parse context token)
      (operatorOperand parse context token) s t := by
  unfold operatorOperand
  refine .ite (fun _ => ?_) fun _ => ?_
  · refine (hparse.expression (context.operand _) h).bind (fun hloose target s₁ h₁ => ?_)
      fun target text₁ s₁ t₁ h₁ => ?_
    · split
      · exact .pure hloose h₁
      · exact .of_error rfl
    · split
      · exact .pure h₁
      · exact .reject
  · split
    · exact unary_carries hparse h context _
    · exact .reject

/-- The word of a type is read again, with the text behind it. -/
theorem keywordOperand_carries (h : seam.Joins text s t) (hpast : 0 < s.past) (context : Context)
    (token : Token) :
    seam.Carries (context.closing ≠ .paren) (keywordOperand parse context token)
      (keywordOperand parse context token) s t := by
  unfold keywordOperand
  refine .ite (fun _ => unary_carries hparse h context .not) fun _ => ?_
  split
  · exact .pure h
  · refine .ite (fun _ => ?_) fun _ => ?_
    · exact Seam.Carries.bind_strict (constructedType_carries h) fun word _ _ _ h₁ =>
        (construction_carries hparse h₁ word).weaken False.elim
    · refine .retreat_bind h hpast fun h₁ => ?_
      refine Seam.Carries.weaken (Seam.Carries.map ?_ (Expression.typeName · false)) False.elim
      intro type later hrun
      rcases hparse.typeName h₁ (run_of_explaining hrun) with ⟨text', t', ht', h'⟩ | ⟨hfalse, -⟩
      · exact .inl ⟨text', t', by rw [explaining_run, ht'], h'⟩
      · exact hfalse.elim

theorem operand_carries (h : seam.Joins text s t) (hpast : 0 < s.past) (context : Context)
    (token : Token) :
    seam.Carries (context.closing ≠ .paren) (operand parse context token)
      (operand parse context token) s t := by
  unfold operand
  split
  next => exact .reject
  next => exact .pure h
  next => exact (keywordOperand_carries hparse h hpast context token).map (·, false)
  next => exact (operatorOperand_carries hparse h context token).map (·, false)
  next =>
    split
    · exact (group_carries hparse h _).weaken False.elim
    · exact .reject
  all_goals exact .pure h

/-- What may be read at a mark of an operand is an operation. -/
theorem continueOperand_carries (h : seam.Joins text s t) (context : Context) (marked : Bool)
    (operand : Expression × Bool) :
    seam.Carries (context.closing ≠ .paren) (continueOperand parse context marked operand)
      (continueOperand parse context marked operand) s t := by
  unfold continueOperand atAssignment
  simp only [bind_assoc, pure_bind]
  refine (markedOperand_carries h operand.1).bind_strict fun layered text₁ s₁ t₁ h₁ => ?_
  refine .ite (fun _ => .pure h₁) fun _ => .peek_bind ?_
  rw [h₁.operator?_eq]
  exact .ite (fun _ => .pure h₁) fun _ => hparse.operations _ _ _ h₁

theorem continueOperand_stays (h : seam.Reached s) (hloose : loose) (context : Context)
    (marked : Bool) (operand : Expression × Bool) :
    seam.Stays loose (continueOperand parse context marked operand) s := by
  have hmark : seam.Stays loose (markedOperand operand.1) s := by
    intro layered later hrun
    rw [markedOperand_unmarked (h.hasForm (by decide) "&")] at hrun
    cases hrun
    exact ⟨hloose, h⟩
  have hlook : ∀ s, seam.Reached s → seam.Stays loose atAssignment s := by
    intro s h found later hrun
    cases hrun
    exact ⟨hloose, h⟩
  unfold continueOperand
  refine hmark.bind fun _ layered s₁ h₁ => .ite (fun _ => .pure hloose h₁) fun _ => ?_
  refine (hlook s₁ h₁).bind fun _ found s₂ h₂ => .ite (fun _ => .pure hloose h₂) fun _ => ?_
  exact (hparse.operations_stays _ _ _ h₂).weaken fun _ => hloose

/-! ## Expressions -/

omit hparse in
/-- The semicolon begins no operand. -/
theorem readOperand_stays (h : seam.Reached s) (context : Context) (marked : Bool) :
    seam.Stays False
      (do continueOperand parse context marked (← operand parse context (← advance))) s := by
  have hnone : Grouping.ofOpening? ";" = none := by decide
  intro result later hrun
  simp [operand, h.advance, Seam.semicolon_kind, Seam.semicolon_text, hnone] at hrun

theorem readOperand_carries (h : seam.Joins text s t) (context : Context) (marked : Bool) :
    seam.Carries (context.closing ≠ .paren)
      (do continueOperand parse context marked (← operand parse context (← advance)))
      (do continueOperand parse context marked (← operand parse context (← advance))) s t := by
  cases text with
  | nil => exact .of_stays ((readOperand_stays h.reached context marked).weaken False.elim)
  | cons token more =>
    refine .advance_bind h fun h₁ hpast => ?_
    refine (operand_carries hparse h₁ hpast context token).bind (fun hloose operand s₂ h₂ => ?_)
      fun operand text₂ s₂ t₂ h₂ => continueOperand_carries hparse h₂ context marked operand
    exact continueOperand_stays hparse h₂ hloose context marked operand

omit hparse in
theorem expressionRule_stays (h : seam.Reached s) (context : Context) :
    seam.Stays False (expressionRule parse context) s := by
  have hword : s.cursor.current.isKeyword "constexpr" = false := h.hasForm (by decide) _
  intro result later hrun
  rw [expressionRule, bind_run, takeKeyword_run, hword] at hrun
  exact readOperand_stays h context false hrun

theorem expressionRule_carries (h : seam.Joins text s t) (context : Context) :
    seam.Carries (context.closing ≠ .paren) (expressionRule parse context)
      (expressionRule parse context) s t :=
  Seam.Carries.bind_strict (.takeKeyword h _) fun marked _ _ _ h₁ =>
    readOperand_carries hparse h₁ context marked

/-! ## Operations -/

omit hparse in
theorem combine_carries (h : seam.Joins text s t) (op : Operator) (left right : Expression)
    (line line' : ℕ) :
    seam.Carries loose (combine op left right line) (combine op left right line') s t := by
  unfold combine
  split
  · split
    · exact .pure h
    · exact .reject
  · exact .pure h
  · exact .reject
  · exact .reject
  · exact .pure h

omit hparse in
theorem combine_stays (h : seam.Reached s) (hloose : loose) (op : Operator)
    (left right : Expression) (line : ℕ) :
    seam.Stays loose (combine op left right line) s := by
  unfold combine
  split
  · split
    · exact .pure hloose h
    · exact .of_error rfl
  · exact .pure hloose h
  · exact .of_error rfl
  · exact .of_error rfl
  · exact .pure hloose h

/-- An operator is not a mark; its right operand is as loose as the expression it is part of. -/
theorem operation_carries (h : seam.Joins (token :: more) s t) (left : Expression) (op : Operator)
    (context : Context) :
    seam.Carries (context.closing ≠ .paren) (operation parse left op context)
      (operation parse left op context) s t := by
  unfold operation
  split
  · refine .move_bind h fun h₁ => (hparse.expression _ h₁).bind (fun _ value s₂ h₂ => ?_)
      fun value text₂ s₂ t₂ h₂ => ?_
    · exact Seam.Stays.bind_strict (.expectPunctuation h₂ (by decide) _)
    · exact Seam.Carries.bind_strict (.expectPunctuation h₂ (by decide) _)
        fun _ _ _ _ h₃ => .pure h₃
  · refine (hparse.expression _ h).bind (fun hloose args s₁ h₁ => ?_) fun args text₁ s₁ t₁ h₁ => ?_
    · split
      · exact .pure hloose h₁
      · exact .pure hloose h₁
    · split
      · exact .pure h₁
      · exact .pure h₁
  · refine .currentLine_bind (.move_bind h fun h₁ => ?_)
    refine (hparse.expression (context.operand _) h₁).bind (fun hloose right s₂ h₂ => ?_)
      fun right text₂ s₂ t₂ h₂ => ?_
    · exact (hparse.operations_stays _ _ _ h₂).bind fun _ right s₃ h₃ =>
        combine_stays h₃ hloose op left right _
    · refine (hparse.operations _ _ _ h₂).bind (fun hloose right s₃ h₃ => ?_)
        fun right text₃ s₃ t₃ h₃ => combine_carries h₃ op left right _ _
      exact combine_stays h₃ hloose op left right _

omit hparse in
theorem endsExpression_reached (h : seam.Reached s) (context : Context) :
    endsExpression context s.cursor.current = true := by
  simp [endsExpression, h.current, seam.semicolon_form]

omit hparse in
theorem operationsRule_stays (h : seam.Reached s) (left : Expression) (floor : ℕ)
    (context : Context) : seam.Stays True (operationsRule parse left floor context) s := by
  intro result later hrun
  rw [operationsRule_of_stops (.ends (endsExpression_reached h context))] at hrun
  cases hrun
  exact ⟨trivial, h⟩

theorem operationsRule_carries (h : seam.Joins text s t) (left : Expression) (floor : ℕ)
    (context : Context) :
    seam.Carries (context.closing ≠ .paren) (operationsRule parse left floor context)
      (operationsRule parse left floor context) s t := by
  cases text with
  | nil =>
    intro result later hrun
    rw [operationsRule_of_stops (.ends (endsExpression_reached h.reached context))] at hrun
    cases hrun
    -- Inside brackets and braces, a closing parenthesis does not end the operations.
    by_cases hparen : context.closing = .paren
    · have hends : endsExpression context t.cursor.current = true := by
        rw [h.current_nil]
        rcases seam.stop_form with hstop | hstop <;>
          simp [endsExpression, hparen, Grouping.closing, hstop]
      exact .inl ⟨[], t, operationsRule_of_stops (.ends hends) _ left, h⟩
    · exact .inr ⟨hparen, h.reached⟩
  | cons token more =>
    refine .peek_bind ?_
    rw [h.current_cons.1, h.current_cons.2]
    refine .ite (fun _ => .pure h) fun _ => ?_
    split
    · exact .reject
    · refine .ite (fun _ => .pure h) fun _ => .keywordFollows_bind h fun follows => ?_
      refine .ite (fun _ => .pure h) fun _ => .ite (fun _ => .reject) fun _ => ?_
      refine .ite (fun _ => .pure h) fun _ => ?_
      refine (operation_carries hparse h left _ context).bind (fun hloose combined s₁ h₁ => ?_)
        fun combined text₁ s₁ t₁ h₁ => hparse.operations _ _ _ h₁
      exact (hparse.operations_stays combined floor context h₁).weaken fun _ => hloose

/-! ## The descent -/

/-- The rules end alike over a common text if the readings that they ask for do. -/
theorem rule_transfers : seam.Transfers (rule parse) where
  typeName _ _ _ h := typeNameRule_carries hparse h
  members _ _ _ h := tupleMembers_carries hparse h
  expression context _ _ _ h := expressionRule_carries hparse h context
  operations left floor context _ _ _ h := operationsRule_carries hparse h left floor context
  elements context _ _ _ h := elementsRule_carries hparse h context
  initializers _ _ _ h := initializersRule_carries hparse h
  expression_stays context _ h := expressionRule_stays h context
  operations_stays left floor context _ h := operationsRule_stays h left floor context
  elements_stays context _ h := elementsRule_stays h context

omit hparse in
/-- Every number of steps reads a common text alike. -/
theorem descend_transfers (seam : Seam) (steps : ℕ) : seam.Transfers (descend steps) := by
  induction steps with
  | zero =>
    have hnever {α : Type} {loose : Prop} (goal : Goal α) (s : Session) :
        seam.Stays loose (descend 0 goal) s := .of_error rfl
    exact {
      typeName := fun _ _ _ _ => .of_stays (hnever _ _)
      members := fun _ _ _ _ => .of_stays (hnever _ _)
      expression := fun _ _ _ _ _ => .of_stays (hnever _ _)
      operations := fun _ _ _ _ _ _ _ => .of_stays (hnever _ _)
      elements := fun _ _ _ _ _ => .of_stays (hnever _ _)
      initializers := fun _ _ _ _ => .of_stays (hnever _ _)
      expression_stays := fun _ _ _ => hnever _ _
      operations_stays := fun _ _ _ _ _ => hnever _ _
      elements_stays := fun _ _ _ => hnever _ _ }
  | succ steps ih => exact rule_transfers ih

end SinFrontend.Parser
