import SinFrontend.Proofs.Agreement.Types

/-!
# Agreement of readers of expressions

The readers of operands, operations and constructions agree with themselves, whatever reads the
goals that they ask for, as long as those readings agree. At the end of input the rule of
expressions is treated only behind a token that no operand must follow; behind any other token it
asks for an expression again and again.
-/

namespace SinFrontend

/-- Whether an operand must follow a token that begins an operand: behind a prefix operator, and
    behind the opening symbol of a group. -/
def Token.opensOperand (token : Token) : Bool :=
  match token.kind with
  | .keyword => token.text == Operator.not.symbol
  | .operator =>
    token.text == Operator.controlTransfer.symbol
      || ((Operator.ofSymbol? token.text).bind Operator.toUnary?).isSome
  | .punctuation => (Grouping.ofOpening? token.text).isSome
  | _ => false

namespace Parser

variable {α : Type} {corr : Session → Session → Prop} {s t : Session} (frame : Session.Frame corr)

/-- Replacing an error keeps agreement, if the replacements agree. -/
theorem explaining_proceed {n : ℕ} {p q : Parser α} {explain : CompileError → Parser CompileError}
    (h : Proceed corr n p q s t)
    (hexplain : ∀ error s' t', corr s' t' →
      Agree corr (fun _ _ => True) (explain error) (explain error) s' t') :
    Proceed corr n (explaining p explain) (explaining q explain) s t := by
  unfold Proceed Agree at h ⊢
  rw [explaining_run, explaining_run]
  generalize p s = x, q t = y at h ⊢
  cases h with
  | ok hc hfwd => exact .ok hc hfwd
  | @error e s' t' hc =>
    cases e with
    | unfinished => exact .error hc
    | rejected error =>
      have hother := hexplain error s' t' hc
      unfold Agree at hother
      simp only [bind_run]
      generalize explain error s' = x, explain error t' = y at hother ⊢
      cases hother with
      | ok hc' _ => exact .error hc'
      | error hc' => exact .error hc'

include frame

theorem expectPunctuation_proceed (hab : Abreast corr s t) (symbol context : String) :
    Proceed corr 1 (expectPunctuation symbol context) (expectPunctuation symbol context) s t := by
  unfold expectPunctuation
  refine Proceed.takePunctuation_bind frame hab (fun s₁ t₁ hab₁ _ _ _ => ?_) fun _ => ?_
  · exact .pure hab₁ rfl
  · exact Proceed.currentLine_bind frame hab (.reject hab)

theorem listKindOf_proceed (hab : Abreast corr s t) (opened : Grouping) :
    Proceed corr 0 (listKindOf opened) (listKindOf opened) s t := by
  unfold listKindOf
  split
  · exact .pure hab rfl
  · exact Proceed.currentLine_bind frame hab (.reject hab)

/-! ## Marks behind an operand -/

theorem overrideQualities_proceed (hab : Abreast corr s t) (operand : Expression) :
    Proceed corr 0 (overrideQualities operand) (overrideQualities operand) s t := by
  unfold overrideQualities
  refine Proceed.currentLine_bind frame hab ?_
  refine Proceed.bind (n := 0) ?_ hab fun qualities s₁ t₁ hab₁ _ _ => ?_
  · apply explaining_proceed (postfixedQualities_proceed frame hab)
    intro error s' t' hc
    have hcur : s'.cursor.current = t'.cursor.current := (List.cons.inj (frame.ahead hc)).1
    split
    · exact .ok hc trivial
    · let other (token : Token) : CompileError :=
        ⟨.expectedSymbolQuality token.text, s.cursor.current.line⟩
      change EndsAlike corr (fun _ _ => True) (.ok (other s'.cursor.current) s')
        (.ok (other t'.cursor.current) t')
      rw [hcur]
      exact .ok hc trivial
  · split
    · exact .pure hab₁ rfl
    · exact .reject hab₁
    · exact .reject hab₁

theorem markedOperand_proceed (hab : Abreast corr s t) (operand : Expression) :
    Proceed corr 0 (markedOperand operand) (markedOperand operand) s t := by
  unfold markedOperand atPostfixedMark
  simp only [bind_assoc, pure_bind]
  refine Proceed.peek_bind frame hab (Proceed.keywordFollows_bind frame hab fun follows => ?_)
  refine .ite (fun _ => ?_) fun _ => .pure hab rfl
  apply Proceed.move_bind frame hab
  intro s₁ t₁ hab₁ _ _
  refine Proceed.takeKeyword_bind frame hab₁ (fun s₂ t₂ hab₂ _ _ _ => ?_) fun _ => ?_
  · exact .pure hab₂ (by omega)
  · refine Proceed.weaken (n := 0) ?_ (by omega)
    exact (overrideQualities_proceed frame hab₁ operand).bind hab₁
      fun layered s₂ t₂ hab₂ _ _ => .pure hab₂ rfl

/-! ## Constructions -/

variable {bound : ℕ} {parse parse' : Descent} (h : AgreeBelow corr bound parse parse')

include h

theorem initializersRule_proceed (hab : Abreast corr s t)
    (hrank : Goal.initializers.rank s.left ≤ bound) :
    Proceed corr 0 (initializersRule parse) (initializersRule parse') s t := by
  simp only [Goal.rank] at hrank
  unfold initializersRule
  refine Proceed.peek_bind frame hab ?_
  refine .ite (fun _ => .pure hab rfl) fun _ => ?_
  apply Proceed.bind (h (.expression _) s t hab (by simp only [Goal.rank]; omega)) hab
  intro member s₁ t₁ hab₁ _ hn₁
  refine Proceed.takeOperator_bind frame hab₁ (fun s₂ t₂ hab₂ _ _ hn₂ => ?_) fun _ => ?_
  · apply Proceed.bind (h (.expression _) s₂ t₂ hab₂ (by simp only [Goal.rank]; omega)) hab₂
    intro value s₃ t₃ hab₃ _ hn₃
    have hmore : ∀ {s₄ t₄ : Session}, Abreast corr s₄ t₄ → s₄.left ≤ s₃.left →
        Proceed corr 0 (do return ⟨member, value⟩ :: (← parse .initializers))
          (do return ⟨member, value⟩ :: (← parse' .initializers)) s₄ t₄ := fun {s₄ t₄} hab₄ hle =>
      Proceed.bind (h .initializers s₄ t₄ hab₄ (by simp only [Goal.rank]; omega)) hab₄
        fun initializers s₅ t₅ hab₅ _ _ => .pure hab₅ (by omega)
    refine Proceed.weaken (n := 0) ?_ (by omega)
    refine Proceed.takePunctuation_bind frame hab₃ (fun s₄ t₄ hab₄ _ _ hn₄ => ?_) fun _ => ?_
    · exact (hmore hab₄ (by omega)).weaken (by omega)
    · refine Proceed.atPunctuation_bind frame hab₃ ?_
      refine .ite (fun _ => hmore hab₃ le_rfl) fun _ => ?_
      exact Proceed.currentLine_bind frame hab₃ (.reject_bind hab₃)
  · exact Proceed.currentLine_bind frame hab₁ (.reject_bind hab₁)

theorem construction_proceed (hab : Abreast corr s t) (explicitType : Option String)
    (hrank : 3 * s.left + 3 < bound) :
    Proceed corr 1 (construction parse explicitType) (construction parse' explicitType) s t := by
  unfold construction
  apply (expectPunctuation_proceed frame hab _ _).bind hab
  intro _ s₁ t₁ hab₁ _ hn₁
  apply Proceed.bind (h .initializers s₁ t₁ hab₁ (by simp only [Goal.rank]; omega)) hab₁
  intro initializers s₂ t₂ hab₂ _ _
  have hclose : ∀ (hasDefault : Bool) {s₃ t₃ : Session}, Abreast corr s₃ t₃ →
      Proceed corr 0
        (do
          expectPunctuation Grouping.brace.closing "to close construction"
          return Expression.construction explicitType initializers hasDefault
            (initializers.all fun initializer => initializer.value.isConst))
        (do
          expectPunctuation Grouping.brace.closing "to close construction"
          return Expression.construction explicitType initializers hasDefault
            (initializers.all fun initializer => initializer.value.isConst)) s₃ t₃ :=
    fun hasDefault s₃ t₃ hab₃ =>
      (expectPunctuation_proceed frame hab₃ _ _).bind hab₃ fun _ s₄ t₄ hab₄ _ _ =>
        .pure hab₄ (by omega)
  refine Proceed.weaken (n := 0) ?_ (by omega)
  refine Proceed.takeKeyword_bind frame hab₂ (fun s₃ t₃ hab₃ _ _ _ => ?_) fun _ => ?_
  · refine Proceed.bind (n := 0) ?_ hab₃ fun _ s₄ t₄ hab₄ _ _ =>
      (hclose true hab₄).weaken (by omega)
    refine Proceed.takePunctuation_bind frame hab₃ (fun s₄ t₄ hab₄ _ _ _ => ?_) fun _ => ?_
    · exact .pure hab₄ (by omega)
    · exact .pure hab₃ rfl
  · exact hclose false hab₂

/-! ## Operands -/

theorem elementsRule_proceed (hab : Abreast corr s t) (context : Context)
    (hrank : (Goal.elements context).rank s.left ≤ bound) :
    Proceed corr 0 (elementsRule parse context) (elementsRule parse' context) s t := by
  simp only [Goal.rank] at hrank
  unfold elementsRule
  refine Proceed.takePunctuation_bind frame hab (fun s₁ t₁ hab₁ _ _ hn₁ => ?_)
    fun _ => .pure hab rfl
  apply Proceed.bind (h (.expression context) s₁ t₁ hab₁ (by simp only [Goal.rank]; omega)) hab₁
  intro element s₂ t₂ hab₂ _ hn₂
  apply Proceed.bind (h (.elements context) s₂ t₂ hab₂ (by simp only [Goal.rank]; omega)) hab₂
  intro elements s₃ t₃ hab₃ _ _
  exact .pure hab₃ (by omega)

theorem group_proceed (hab : Abreast corr s t) (opened : Grouping)
    (hrank : 3 * s.left + 5 < bound) :
    Proceed corr 0 (group parse opened) (group parse' opened) s t := by
  unfold group
  refine Proceed.atPunctuation_bind frame hab ?_
  refine .ite (fun _ => ?_) fun _ => ?_
  · apply (listKindOf_proceed frame hab opened).bind hab
    intro kind s₁ t₁ hab₁ _ _
    exact Proceed.move_bind frame hab₁ fun s₂ t₂ hab₂ _ _ => .pure hab₂ (by omega)
  · apply Proceed.bind (h (.expression _) s t hab (by simp only [Goal.rank]; omega)) hab
    intro first s₁ t₁ hab₁ _ hn₁
    refine Proceed.weaken (n := 0) ?_ (by omega)
    refine Proceed.atPunctuation_bind frame hab₁ ?_
    refine .ite (fun _ => ?_) fun _ => ?_
    · apply (listKindOf_proceed frame hab₁ opened).bind hab₁
      intro kind s₂ t₂ hab₂ _ hn₂
      apply Proceed.bind (h (.elements _) s₂ t₂ hab₂ (by simp only [Goal.rank]; omega)) hab₂
      intro elements s₃ t₃ hab₃ _ _
      apply (expectPunctuation_proceed frame hab₃ _ _).bind hab₃
      intro _ s₄ t₄ hab₄ _ _
      exact .pure hab₄ (by omega)
    · apply (expectPunctuation_proceed frame hab₁ _ _).bind hab₁
      intro _ s₂ t₂ hab₂ _ _
      exact .pure hab₂ (by omega)

omit frame in
theorem unary_proceed (hab : Abreast corr s t) (context : Context) (op : Operator)
    (hrank : 3 * s.left + 5 < bound) :
    Proceed corr 0 (unary parse context op) (unary parse' context op) s t := by
  unfold unary
  apply Proceed.bind (h (.expression _) s t hab (by simp only [Goal.rank]; omega)) hab
  intro operand s₁ t₁ hab₁ _ _
  exact .pure hab₁ (by omega)

omit frame in
theorem operatorOperand_proceed (hab : Abreast corr s t) (context : Context) (token : Token)
    (hkind : token.kind = .operator) (hrank : token.opensOperand = true → 3 * s.left + 5 < bound) :
    Proceed corr 0 (operatorOperand parse context token) (operatorOperand parse' context token)
      s t := by
  simp only [Token.opensOperand, hkind] at hrank
  unfold operatorOperand
  refine .ite (fun hcall => ?_) fun _ => ?_
  · have hrank := hrank (by rw [hcall]; rfl)
    apply Proceed.bind (h (.expression _) s t hab (by simp only [Goal.rank]; omega)) hab
    intro target s₁ t₁ hab₁ _ _
    split
    · exact .pure hab₁ (by omega)
    · exact .reject hab₁
  · split
    next op hop => exact unary_proceed h hab context op (hrank (by rw [hop]; simp))
    next => exact .reject hab

omit h in
theorem constructedType_proceed (hab : Abreast corr s t) :
    Proceed corr 0 constructedType constructedType s t := by
  unfold constructedType
  refine Proceed.peek_bind frame hab (.ite (fun _ => ?_) fun _ => .pure hab rfl)
  exact Proceed.advance_bind frame hab fun word s₁ t₁ hab₁ _ _ _ => .pure hab₁ (by omega)

/-- A word that begins a type is unread, so the type may take up that word again. -/
theorem keywordOperand_proceed (hab : Abreast corr s t) (hpast : 0 < s.past) (context : Context)
    (token : Token) (hkind : token.kind = .keyword) (hrank : 3 * s.left + 4 < bound)
    (hopens : token.opensOperand = true → 3 * s.left + 5 < bound) :
    Proceed corr 0 (keywordOperand parse context token) (keywordOperand parse' context token)
      s t := by
  simp only [Token.opensOperand, hkind] at hopens
  unfold keywordOperand
  refine .ite (fun hnot => unary_proceed h hab context _ (hopens hnot)) fun _ => ?_
  split
  · exact .pure hab rfl
  · refine .ite (fun _ => ?_) fun _ => ?_
    · apply (constructedType_proceed frame hab).bind hab
      intro word s₁ t₁ hab₁ _ _
      exact (construction_proceed frame h hab₁ word (by omega)).weaken (by omega)
    · apply Proceed.retreat_bind frame hab hpast
      intro s₁ t₁ hab₁ hleft
      have htype := h .typeName s₁ t₁ hab₁ (by simp only [Goal.rank]; omega)
      refine Proceed.bind (n := 1) (explaining_proceed (htype.weaken ?_) fun _ s' t' hc => ?_) hab₁
        fun type s₂ t₂ hab₂ _ _ => .pure hab₂ rfl
      · simp only [Goal.length]
        omega
      · exact .ok hc trivial

theorem operand_proceed (hab : Abreast corr s t) (hpast : 0 < s.past) (context : Context)
    (token : Token) (hrank : 3 * s.left + 4 < bound)
    (hopens : token.opensOperand = true → 3 * s.left + 5 < bound) :
    Proceed corr 0 (operand parse context token) (operand parse' context token) s t := by
  unfold operand
  split
  next => exact .reject hab
  next => exact .pure hab rfl
  next hkind =>
    exact (keywordOperand_proceed frame h hab hpast context token hkind hrank hopens).bind hab
      fun _ _ _ hab₁ _ _ => .pure hab₁ rfl
  next hkind =>
    exact (operatorOperand_proceed h hab context token hkind hopens).bind hab
      fun _ _ _ hab₁ _ _ => .pure hab₁ rfl
  next hkind =>
    simp only [Token.opensOperand, hkind] at hopens
    split
    next opened hgroup => exact group_proceed frame h hab opened (hopens (by rw [hgroup]; rfl))
    next => exact .reject hab
  all_goals exact .pure hab rfl

/-- Operations are asked for behind the mark, with no more tokens left than before it. -/
theorem continueOperand_proceed (hab : Abreast corr s t) (context : Context) (marked : Bool)
    (operand : Expression × Bool) (hrank : 3 * s.left + 6 < bound ∨ 1 < bound ∧ s.left = 0) :
    Proceed corr 0 (continueOperand parse context marked operand)
      (continueOperand parse' context marked operand) s t := by
  unfold continueOperand atAssignment
  simp only [bind_assoc, pure_bind]
  apply (markedOperand_proceed frame hab _).bind hab
  intro layered s₁ t₁ hab₁ _ hn₁
  refine .ite (fun _ => .pure hab₁ rfl) fun _ => Proceed.peek_bind frame hab₁ ?_
  refine .ite (fun _ => .pure hab₁ rfl) fun _ => ?_
  refine Proceed.weaken (h (.operations _ _ _) s₁ t₁ hab₁ ?_) (by omega)
  simp only [Goal.rank]
  split <;> omega

/-- The rule of expressions behind a leading `constexpr`. -/
theorem operandFrom_proceed (hab : Abreast corr s t) (context : Context) (marked : Bool)
    (hrank : 3 * s.left + 6 < bound + 3 * min 1 s.left) :
    Proceed corr (min 1 s.left)
      (do continueOperand parse context marked (← operand parse context (← advance)))
      (do continueOperand parse' context marked (← operand parse' context (← advance))) s t := by
  apply Proceed.advance_bind frame hab
  intro token s₁ t₁ hab₁ _ hfwd₁ hn₁
  have hpast := hab.past_pos hfwd₁
  apply (operand_proceed frame h hab₁ hpast context token (by omega) (by omega)).bind hab₁
  intro operand s₂ t₂ hab₂ _ hn₂
  exact (continueOperand_proceed frame h hab₂ context marked operand (by omega)).weaken (by omega)

/-- Away from the end of input, the rule of expressions asks only for goals of lower rank. -/
theorem expressionRule_proceed (hab : Abreast corr s t) (hleft : 0 < s.left) (context : Context)
    (hrank : (Goal.expression context).rank s.left ≤ bound) :
    Proceed corr 1 (expressionRule parse context) (expressionRule parse' context) s t := by
  simp only [Goal.rank] at hrank
  unfold expressionRule
  refine Proceed.takeKeyword_bind frame hab (fun s₁ t₁ hab₁ _ _ hn₁ => ?_) fun _ => ?_
  · exact (operandFrom_proceed frame h hab₁ context true (by omega)).weaken (by omega)
  · exact (operandFrom_proceed frame h hab context false (by omega)).weaken (by omega)

/-- At the end of input, the token before it is taken for an operand. -/
theorem expressionRule_proceed_atEnd (hab : Abreast corr s t) (hend : s.left = 0)
    (hopens : s.cursor.previous.opensOperand = false) (context : Context) (hrank : 5 ≤ bound) :
    Proceed corr 0 (expressionRule parse context) (expressionRule parse' context) s t := by
  unfold expressionRule
  refine Proceed.takeKeyword_bind frame hab (fun _ _ _ _ _ _ => by omega) fun _ => ?_
  refine Proceed.advance_bind_atEnd frame hab hend ?_
  have hpast : 0 < s.past := by have := hab.ready; omega
  apply (operand_proceed frame h hab hpast context _ (by omega) (by simp [hopens])).bind hab
  intro operand s₁ t₁ hab₁ _ hn₁
  exact (continueOperand_proceed frame h hab₁ context false operand (by omega)).weaken (by omega)

/-! ## Operations -/

omit frame h in
theorem combine_proceed (hab : Abreast corr s t) (op : Operator) (left right : Expression)
    (line : ℕ) : Proceed corr 0 (combine op left right line) (combine op left right line) s t := by
  unfold combine
  split
  · split
    · exact .pure hab rfl
    · exact .reject hab
  · exact .pure hab rfl
  · exact .reject hab
  · exact .reject hab
  · exact .pure hab rfl

/-- An operation takes its operator at least. -/
theorem operation_proceed (hab : Abreast corr s t) (hleft : 0 < s.left) (left : Expression)
    (op : Operator) (context : Context) (hrank : 3 * s.left + 6 ≤ bound) :
    Proceed corr 1 (operation parse left op context) (operation parse' left op context) s t := by
  unfold operation
  split
  · apply Proceed.move_bind frame hab
    intro s₁ t₁ hab₁ _ hn₁
    unfold index
    apply Proceed.bind (h (.expression _) s₁ t₁ hab₁ (by simp only [Goal.rank]; omega)) hab₁
    intro index s₂ t₂ hab₂ _ _
    apply (expectPunctuation_proceed frame hab₂ _ _).bind hab₂
    intro _ s₃ t₃ hab₃ _ _
    exact .pure hab₃ (by omega)
  · unfold arguments
    apply Proceed.bind (h (.expression _) s t hab (by simp only [Goal.rank]; omega)) hab
    intro args s₁ t₁ hab₁ _ _
    simp only [Goal.length]
    split
    · exact .pure hab₁ (by omega)
    · exact .pure hab₁ (by omega)
  · refine Proceed.currentLine_bind frame hab ?_
    apply Proceed.move_bind frame hab
    intro s₁ t₁ hab₁ _ hn₁
    apply Proceed.bind (h (.expression _) s₁ t₁ hab₁ (by simp only [Goal.rank]; omega)) hab₁
    intro right s₂ t₂ hab₂ _ hn₂
    refine Proceed.bind (h (.operations _ _ _) s₂ t₂ hab₂ ?_) hab₂ fun right s₃ t₃ hab₃ _ _ => ?_
    · simp only [Goal.rank]
      split <;> omega
    · exact (combine_proceed hab₃ op left right _).weaken (by omega)

theorem operationsRule_proceed (hab : Abreast corr s t) (left : Expression) (floor : ℕ)
    (context : Context) (hrank : (Goal.operations left floor context).rank s.left ≤ bound) :
    Proceed corr 0 (operationsRule parse left floor context)
      (operationsRule parse' left floor context) s t := by
  simp only [Goal.rank] at hrank
  unfold operationsRule
  refine Proceed.peek_bind frame hab (.ite (fun _ => .pure hab rfl) fun hends => ?_)
  have hleft : 0 < s.left := by
    rw [Session.left_pos_iff]
    intro heof
    simp [endsExpression, heof] at hends
  rw [if_neg (by omega)] at hrank
  split
  · exact .reject hab
  · refine .ite (fun _ => .pure hab rfl) fun _ => ?_
    apply Proceed.keywordFollows_bind frame hab
    intro follows
    refine .ite (fun _ => .pure hab rfl) fun _ => ?_
    refine .ite (fun _ => .reject hab) fun _ => .ite (fun _ => .pure hab rfl) fun _ => ?_
    refine Proceed.weaken (n := 0) ?_ (by omega)
    apply (operation_proceed frame h hab hleft left _ context hrank).bind hab
    intro combined s₁ t₁ hab₁ _ hn₁
    refine Proceed.weaken (h (.operations _ _ _) s₁ t₁ hab₁ ?_) (by omega)
    simp only [Goal.rank]
    split <;> omega

end Parser

end SinFrontend
