import SinFrontend.Proofs.Agreement.Expressions

/-!
# Agreement of readers of statements

The readers of blocks, declarations, definitions and commands agree with themselves, whatever reads
the goals that they ask for, as long as those readings agree. All of them ask only for goals of
lower rank.
-/

namespace SinFrontend.Parser

variable {corr : Session → Session → Prop} {s t : Session} {k : ℕ} (frame : Session.Frame corr)

include frame

/-! ## Parts -/

theorem expectIdentifier_proceed (hab : Abreast corr s t) (context : String) :
    Proceed corr 1 (expectIdentifier context) (expectIdentifier context) s t := by
  unfold expectIdentifier
  refine Proceed.peek_bind frame hab (.ite (fun hword => ?_) fun _ => ?_)
  · have hleft : 0 < s.left := by
      rw [Session.left_pos_iff]
      simp_all
    exact Proceed.advance_bind frame hab fun token s₁ t₁ hab₁ _ _ _ => .pure hab₁ (by omega)
  · exact Proceed.currentLine_bind frame hab (.reject hab)

theorem expectStatementEnd_proceed (hab : Abreast corr s t) (hpast : 0 < s.past) :
    Proceed corr 0 expectStatementEnd expectStatementEnd s t := by
  unfold expectStatementEnd
  refine Proceed.peek_bind frame hab (.ite (fun _ => .pure hab rfl) fun _ => ?_)
  exact Proceed.previousLine_bind frame hab hpast (.reject hab)

theorem expectTypeStart_proceed (hab : Abreast corr s t) (line : ℕ) :
    Proceed corr 0 (expectTypeStart line) (expectTypeStart line) s t := by
  unfold expectTypeStart
  exact Proceed.peek_bind frame hab (.ite (fun _ => .pure hab rfl) fun _ => .reject hab)

theorem structName_proceed (hab : Abreast corr s t) :
    Proceed corr 0 structName structName s t := by
  unfold structName
  refine Proceed.peek_bind frame hab (.ite (fun hword => ?_) fun _ => ?_)
  · exact Proceed.advance_bind frame hab fun token s₁ t₁ hab₁ _ _ _ => .pure hab₁ (by omega)
  · exact Proceed.currentLine_bind frame hab (.reject hab)

theorem skipSemicolons_proceed (hab : Abreast corr s t) :
    Proceed corr 0 skipSemicolons skipSemicolons s t := by
  have hmoves : ∀ (count : ℕ) {s t : Session}, Abreast corr s t →
      corr (s.on (·.advanceBy count)) (t.on (·.advanceBy count)) ∧
        s.Forward 0 (s.on (·.advanceBy count)) := by
    intro count
    induction count with
    | zero => exact fun hab => ⟨hab.corr, .refl hab.tidy⟩
    | succ count ih =>
      intro s t hab
      have hfwd : s.Forward 0 (s.on .advance) :=
        (Session.Forward.advance_min hab.tidy).weaken (Nat.zero_le _)
      obtain ⟨hc, hmore⟩ := ih (hab.forward hfwd (frame.advance hab.corr))
      exact ⟨hc, hfwd.trans hmore⟩
  have hskip := hmoves (s.cursor.ahead.takeWhile (·.isPunctuation ";")).length hab
  have hsame : t.on (·.skipWhile (·.isPunctuation ";")) =
      t.on (·.advanceBy (s.cursor.ahead.takeWhile (·.isPunctuation ";")).length) := by
    rw [frame.ahead hab.corr]
    rfl
  change EndsAlike corr _ (.ok () (s.on (·.skipWhile (·.isPunctuation ";"))))
    (.ok () (t.on (·.skipWhile (·.isPunctuation ";"))))
  rw [hsame]
  exact .ok hskip.1 hskip.2

/-! ## Blocks -/

variable {bound : ℕ} {parse parse' : Descent} (h : AgreeBelow corr bound parse parse')

include h

theorem statementsRule_proceed (hab : Abreast corr s t)
    (hrank : Goal.statements.rank s.left ≤ bound) :
    Proceed corr 0 (statementsRule parse) (statementsRule parse') s t := by
  simp only [Goal.rank] at hrank
  unfold statementsRule
  apply (skipSemicolons_proceed frame hab).bind hab
  intro _ s₁ t₁ hab₁ _ hn₁
  refine Proceed.atEnd_bind frame hab₁ (Proceed.atPunctuation_bind frame hab₁ ?_)
  refine .ite (fun _ => .pure hab₁ rfl) fun hmore => ?_
  have hleft : 0 < s₁.left := by
    rw [Nat.pos_iff_ne_zero, ne_eq, Session.left_eq_zero_iff]
    intro hend
    simp [hend] at hmore
  rw [if_neg (by omega)] at hrank
  refine Proceed.currentLine_bind frame hab₁ ?_
  apply Proceed.bind (h (.statement false) s₁ t₁ hab₁ (by simp only [Goal.rank]; omega)) hab₁
  intro statement s₂ t₂ hab₂ _ hn₂
  simp only [Goal.length] at hn₂
  refine Proceed.bind (h .statements s₂ t₂ hab₂ ?_) hab₂ fun entries s₃ t₃ hab₃ _ _ =>
    .pure hab₃ (by omega)
  simp only [Goal.rank]
  split <;> omega

theorem block_proceed (hab : Abreast corr s t) (hrank : Goal.statements.rank s.left < bound) :
    Proceed corr 0 (block parse) (block parse') s t := by
  have hnotes : ∀ (lines : List ℕ) {s t : Session}, Abreast corr s t →
      Proceed corr 0 (lines.forM (note passNote)) (lines.forM (note passNote)) s t := by
    intro lines
    induction lines with
    | nil => exact fun hab => .pure hab rfl
    | cons line lines ih =>
      intro s t hab
      simp only [List.forM]
      exact (record_proceed frame hab _).bind hab fun _ _ _ hab₁ _ _ => ih hab₁
  unfold block
  apply Proceed.bind (h .statements s t hab hrank) hab
  intro entries s₁ t₁ hab₁ _ _
  refine Proceed.weaken (n := 0) ?_ (by omega)
  refine .ite (fun _ => .pure hab₁ rfl) fun _ => ?_
  exact (hnotes _ hab₁).bind hab₁ fun _ s₂ t₂ hab₂ _ _ => .pure hab₂ rfl

theorem closedBlock_proceed (hab : Abreast corr s t) (context : String)
    (hrank : Goal.statements.rank s.left < bound) :
    Proceed corr 0 (closedBlock parse context) (closedBlock parse' context) s t := by
  unfold closedBlock
  apply (block_proceed frame h hab hrank).bind hab
  intro block s₁ t₁ hab₁ _ _
  apply (expectPunctuation_proceed frame hab₁ _ _).bind hab₁
  intro _ s₂ t₂ hab₂ _ _
  exact .pure hab₂ (by omega)

/-! ## Declarations and allocations -/

theorem typedName_proceed (hab : Abreast corr s t) (context : String)
    (hrank : Goal.typeName.rank s.left < bound) :
    Proceed corr 1 (typedName parse context) (typedName parse' context) s t := by
  unfold typedName
  apply Proceed.bind (h .typeName s t hab hrank) hab
  intro type s₁ t₁ hab₁ _ _
  apply (expectIdentifier_proceed frame hab₁ _).bind hab₁
  intro name s₂ t₂ hab₂ _ hn₂
  apply (withPostfixedQualities_proceed frame hab₂ type).bind hab₂
  intro _ s₃ t₃ hab₃ _ _
  exact .pure hab₃ (by omega)

theorem parametersRule_proceed (hab : Abreast corr s t)
    (hrank : Goal.parameters.rank s.left ≤ bound) :
    Proceed corr 0 (parametersRule parse) (parametersRule parse') s t := by
  simp only [Goal.rank] at hrank
  unfold parametersRule
  refine Proceed.atPunctuation_bind frame hab (.ite (fun _ => .pure hab rfl) fun _ => ?_)
  refine Proceed.currentLine_bind frame hab ?_
  apply Proceed.bind (h (.statement true) s t hab (by simp only [Goal.rank]; omega)) hab
  intro parameter s₁ t₁ hab₁ _ hn₁
  simp only [Goal.length] at hn₁
  refine Proceed.weaken (n := 0) ?_ (by omega)
  split
  next parameter =>
    have hmore : ∀ {s₂ t₂ : Session}, Abreast corr s₂ t₂ → s₂.left < s.left →
        Proceed corr 0 (do return parameter :: (← parse .parameters))
          (do return parameter :: (← parse' .parameters)) s₂ t₂ := fun {s₂ t₂} hab₂ hlt =>
      Proceed.bind (h .parameters s₂ t₂ hab₂ (by simp only [Goal.rank]; omega)) hab₂
        fun parameters s₃ t₃ hab₃ _ _ => .pure hab₃ (by omega)
    have hcontinue : Proceed corr 0
        (do
          unless ← takePunctuation "," do
            unless ← atPunctuation ")" do
              reject (.missingGroupingSymbol ")" "to close parameter list") (← currentLine)
          return parameter :: (← parse .parameters))
        (do
          unless ← takePunctuation "," do
            unless ← atPunctuation ")" do
              reject (.missingGroupingSymbol ")" "to close parameter list") (← currentLine)
          return parameter :: (← parse' .parameters)) s₁ t₁ := by
      refine Proceed.takePunctuation_bind frame hab₁ (fun s₂ t₂ hab₂ _ _ hn₂ => ?_) fun _ => ?_
      · exact (hmore hab₂ (by omega)).weaken (by omega)
      · refine Proceed.atPunctuation_bind frame hab₁ (.ite (fun hclose => ?_) fun _ => ?_)
        · have hleft : 0 < s₁.left := by
            rw [Session.left_pos_iff]
            simp [kind_of_isPunctuation hclose]
          exact hmore hab₁ (by omega)
        · exact Proceed.currentLine_bind frame hab₁ (.reject_bind hab₁)
    exact .ite (fun _ => hcontinue) fun _ => .reject_bind hab₁
  next => exact .reject hab₁

theorem formalParameters_proceed (hab : Abreast corr s t)
    (hrank : Goal.parameters.rank s.left < bound) :
    Proceed corr 0 (formalParameters parse) (formalParameters parse') s t := by
  unfold formalParameters
  apply Proceed.bind (h .parameters s t hab hrank) hab
  intro params s₁ t₁ hab₁ _ _
  exact Proceed.move_bind frame hab₁ fun s₂ t₂ hab₂ _ _ => .pure hab₂ (by simp [Goal.length])

theorem definitionBody_proceed (hab : Abreast corr s t) (missing empty : String)
    (hrank : 3 * s.left + 7 < bound) :
    Proceed corr 1 (definitionBody parse missing empty) (definitionBody parse' missing empty)
      s t := by
  unfold definitionBody
  refine Proceed.takePunctuation_bind frame hab (fun s₁ t₁ hab₁ _ _ hn₁ => ?_) fun _ => ?_
  · have hblock : ∀ {s₂ t₂ : Session}, Abreast corr s₂ t₂ → s₂.left ≤ s₁.left →
        Proceed corr 0 (closedBlock parse "to close definition body")
          (closedBlock parse' "to close definition body") s₂ t₂ := fun hab₂ hle =>
      closedBlock_proceed frame h hab₂ _ (by simp only [Goal.rank]; split <;> omega)
    refine Proceed.atPunctuation_bind frame hab₁ (.ite (fun _ => ?_) fun _ => hblock hab₁ le_rfl)
    refine Proceed.currentLine_bind frame hab₁ ?_
    exact (record_proceed frame hab₁ _).bind hab₁ fun _ s₂ t₂ hab₂ _ hn₂ => hblock hab₂ hn₂
  · exact Proceed.currentLine_bind frame hab (.reject_bind hab)

omit h in
theorem structDeclaration_proceed (hab : Abreast corr s t) (hpast : 0 < s.past) (line : ℕ) :
    Proceed corr 0 (structDeclaration line) (structDeclaration line) s t := by
  unfold structDeclaration
  apply (structName_proceed frame hab).bind hab
  intro name s₁ t₁ hab₁ hfwd₁ _
  apply (expectStatementEnd_proceed frame hab₁ (hfwd₁.past_pos hpast)).bind hab₁
  intro _ s₂ t₂ hab₂ _ _
  exact .pure hab₂ rfl

theorem declaredValue_proceed (hab : Abreast corr s t) (isParameter : Bool)
    (hrank : 3 * s.left + 5 < bound) :
    Proceed corr 0 (declaredValue parse isParameter) (declaredValue parse' isParameter) s t := by
  have hvalue : Proceed corr 0
      (do move Cursor.advance; return some (← parse (.expression {})))
      (do move Cursor.advance; return some (← parse' (.expression {}))) s t := by
    apply Proceed.move_bind frame hab
    intro s₁ t₁ hab₁ _ hn₁
    refine Proceed.bind (h (.expression _) s₁ t₁ hab₁ (by simp only [Goal.rank]; omega)) hab₁
      fun value s₂ t₂ hab₂ _ _ => .pure hab₂ (by omega)
  unfold declaredValue
  refine Proceed.peek_bind frame hab (.ite (fun _ => ?_) fun _ => .pure hab rfl)
  refine .ite (fun _ => hvalue) fun _ => ?_
  exact Proceed.currentLine_bind frame hab (.reject_bind hab)

theorem typedDeclaration_proceed (hab : Abreast corr s t) (hpast : 0 < s.past) (line : ℕ)
    (isParameter : Bool) (hrank : 3 * s.left + 5 < bound) :
    Proceed corr 0 (typedDeclaration parse line isParameter)
      (typedDeclaration parse' line isParameter) s t := by
  unfold typedDeclaration
  apply (expectTypeStart_proceed frame hab line).bind hab
  intro _ s₁ t₁ hab₁ hfwd₁ hn₁
  apply (typedName_proceed frame h hab₁ _ (by simp only [Goal.rank]; omega)).bind hab₁
  intro typed s₂ t₂ hab₂ hfwd₂ hn₂
  have hpast₂ := hfwd₂.past_pos (hfwd₁.past_pos hpast)
  refine Proceed.weaken (n := 0) ?_ (by omega)
  refine Proceed.takePunctuation_bind frame hab₂ (fun s₃ t₃ hab₃ _ hfwd₃ hn₃ => ?_) fun _ => ?_
  · apply (formalParameters_proceed frame h hab₃ (by simp only [Goal.rank]; omega)).bind hab₃
    intro params s₄ t₄ hab₄ hfwd₄ _
    have hpast₄ := hfwd₄.past_pos (hfwd₃.past_pos hpast₂)
    apply (expectStatementEnd_proceed frame hab₄ hpast₄).bind hab₄
    intro _ s₅ t₅ hab₅ _ _
    exact .pure hab₅ (by omega)
  · apply (declaredValue_proceed frame h hab₂ isParameter (by omega)).bind hab₂
    intro value s₃ t₃ hab₃ hfwd₃ _
    apply (expectStatementEnd_proceed frame hab₃ (hfwd₃.past_pos hpast₂)).bind hab₃
    intro _ s₄ t₄ hab₄ _ _
    exact .pure hab₄ (by omega)

theorem declaration_proceed (hab : Abreast corr s t) (hpast : 0 < s.past) (line : ℕ)
    (isParameter : Bool) (hrank : 3 * s.left + 5 < bound) :
    Proceed corr 0 (declaration parse line isParameter) (declaration parse' line isParameter)
      s t := by
  unfold declaration
  refine Proceed.takeKeyword_bind frame hab (fun s₁ t₁ hab₁ _ hfwd₁ _ => ?_) fun _ => ?_
  · exact (structDeclaration_proceed frame hab₁ (hfwd₁.past_pos hpast) line).weaken (by omega)
  · exact typedDeclaration_proceed frame h hab hpast line isParameter hrank

theorem allocation_proceed (hab : Abreast corr s t) (hpast : 0 < s.past) (line : ℕ)
    (hrank : 3 * s.left + 5 < bound) :
    Proceed corr 0 (allocation parse line) (allocation parse' line) s t := by
  unfold allocation
  apply (expectTypeStart_proceed frame hab line).bind hab
  intro _ s₁ t₁ hab₁ hfwd₁ hn₁
  apply (typedName_proceed frame h hab₁ _ (by simp only [Goal.rank]; omega)).bind hab₁
  intro typed s₂ t₂ hab₂ hfwd₂ hn₂
  have hpast₂ := hfwd₂.past_pos (hfwd₁.past_pos hpast)
  obtain ⟨type, name⟩ := typed
  have hend : ∀ (value : Option Expression) {s₃ t₃ : Session}, Abreast corr s₃ t₃ → 0 < s₃.past →
      Proceed corr 0
        (do expectStatementEnd; return (⟨.allocation type name value, line⟩ : Statement))
        (do expectStatementEnd; return ⟨.allocation type name value, line⟩) s₃ t₃ :=
    fun value s₃ t₃ hab₃ hpast₃ =>
      (expectStatementEnd_proceed frame hab₃ hpast₃).bind hab₃ fun _ s₄ t₄ hab₄ _ _ =>
        .pure hab₄ rfl
  refine Proceed.weaken (n := 0) ?_ (by omega)
  refine .ite (fun _ => ?_) fun _ => Proceed.previousLine_bind frame hab₂ hpast₂ (.reject_bind hab₂)
  refine Proceed.takeOperator_bind frame hab₂ (fun s₃ t₃ hab₃ _ hfwd₃ hn₃ => ?_) fun _ => ?_
  · simp only [map_eq_pure_bind, bind_assoc, pure_bind]
    apply Proceed.bind (h (.expression _) s₃ t₃ hab₃ (by simp only [Goal.rank]; omega)) hab₃
    intro value s₄ t₄ hab₄ hfwd₄ _
    exact (hend (some value) hab₄ (hfwd₄.past_pos (hfwd₃.past_pos hpast₂))).weaken (by omega)
  · exact hend none hab₂ hpast₂

/-! ## Definitions -/

omit frame h in
theorem demandReturn_proceed (hab : Abreast corr s t) (body : Block) (name : String) (line : ℕ) :
    Proceed corr 0 (demandReturn body name line) (demandReturn body name line) s t := by
  unfold demandReturn
  split
  · exact .pure hab rfl
  · exact .reject hab
  · exact .error hab.corr

theorem functionDefinition_proceed (hab : Abreast corr s t) (line : ℕ)
    (hrank : 3 * s.left + 4 < bound) :
    Proceed corr 0 (functionDefinition parse line) (functionDefinition parse' line) s t := by
  unfold functionDefinition
  apply (typedName_proceed frame h hab _ (by simp only [Goal.rank]; omega)).bind hab
  intro typed s₁ t₁ hab₁ _ hn₁
  refine Proceed.weaken (n := 0) ?_ (by omega)
  refine Proceed.takePunctuation_bind frame hab₁ (fun s₂ t₂ hab₂ _ _ hn₂ => ?_)
    fun _ => .reject_bind hab₁
  apply (formalParameters_proceed frame h hab₂ (by simp only [Goal.rank]; omega)).bind hab₂
  intro params s₃ t₃ hab₃ _ hn₃
  apply (definitionBody_proceed frame h hab₃ _ _ (by omega)).bind hab₃
  intro body s₄ t₄ hab₄ _ _
  apply (demandReturn_proceed hab₄ body _ line).bind hab₄
  intro _ s₅ t₅ hab₅ _ _
  exact .pure hab₅ (by omega)

theorem structDefinition_proceed (hab : Abreast corr s t) (line : ℕ)
    (hrank : 3 * s.left + 7 < bound) :
    Proceed corr 0 (structDefinition parse line) (structDefinition parse' line) s t := by
  unfold structDefinition
  apply (structName_proceed frame hab).bind hab
  intro name s₁ t₁ hab₁ _ hn₁
  apply (definitionBody_proceed frame h hab₁ _ _ (by omega)).bind hab₁
  intro body s₂ t₂ hab₂ _ _
  exact .pure hab₂ (by omega)

theorem definition_proceed (hab : Abreast corr s t) (line : ℕ) (hrank : 3 * s.left + 5 < bound) :
    Proceed corr 0 (definition parse line) (definition parse' line) s t := by
  unfold definition
  refine Proceed.takeKeyword_bind frame hab (fun s₁ t₁ hab₁ _ _ hn₁ => ?_) fun _ => ?_
  · exact (structDefinition_proceed frame h hab₁ line (by omega)).weaken (by omega)
  · exact functionDefinition_proceed frame h hab line (by omega)

/-! ## Simple statements -/

omit h in
theorem includeDirective_proceed (hab : Abreast corr s t) (hpast : 0 < s.past) (line : ℕ) :
    Proceed corr 0 (includeDirective line) (includeDirective line) s t := by
  unfold includeDirective
  refine Proceed.peek_bind frame hab (.ite (fun _ => ?_) fun _ => .reject hab)
  apply Proceed.advance_bind frame hab
  intro token s₁ t₁ hab₁ _ hfwd₁ _
  refine Proceed.weaken (n := 0) ?_ (by omega)
  apply (expectStatementEnd_proceed frame hab₁ (hfwd₁.past_pos hpast)).bind hab₁
  intro _ s₂ t₂ hab₂ _ _
  exact .pure hab₂ rfl

omit h in
theorem copyOperator_proceed (hab : Abreast corr s t) :
    Proceed corr 0 copyOperator copyOperator s t := by
  unfold copyOperator
  apply Proceed.advance_bind frame hab
  intro token s₁ t₁ hab₁ _ _ _
  split
  · refine .ite (fun _ => .pure hab₁ (by omega)) fun _ => ?_
    exact .ite (fun _ => .reject hab₁) fun _ => .reject hab₁
  · exact .reject hab₁

theorem assignment_proceed (hab : Abreast corr s t) (hpast : 0 < s.past) (line : ℕ)
    (hrank : 3 * s.left + 5 < bound) :
    Proceed corr 0 (assignment parse line) (assignment parse' line) s t := by
  unfold assignment
  apply Proceed.bind (h (.expression _) s t hab (by simp only [Goal.rank]; omega)) hab
  intro target s₁ t₁ hab₁ hfwd₁ hn₁
  apply (copyOperator_proceed frame hab₁).bind hab₁
  intro op s₂ t₂ hab₂ hfwd₂ hn₂
  refine Proceed.weaken (n := 0) ?_ (by omega)
  refine Proceed.atPunctuation_bind frame hab₂ (Proceed.atEnd_bind frame hab₂
    (Proceed.currentLine_bind frame hab₂ ?_))
  refine .ite (fun _ => .reject_bind hab₂) fun _ => ?_
  apply Proceed.bind (h (.expression _) s₂ t₂ hab₂ (by simp only [Goal.rank]; omega)) hab₂
  intro value s₃ t₃ hab₃ hfwd₃ _
  have hpast₃ := hfwd₃.past_pos (hfwd₂.past_pos (hfwd₁.past_pos hpast))
  apply (expectStatementEnd_proceed frame hab₃ hpast₃).bind hab₃
  intro _ s₄ t₄ hab₄ _ _
  split
  · exact .pure hab₄ (by omega)
  · exact .pure hab₄ (by omega)

theorem movement_proceed (hab : Abreast corr s t) (hpast : 0 < s.past) (line : ℕ)
    (hrank : 3 * s.left + 5 < bound) :
    Proceed corr 0 (movement parse line) (movement parse' line) s t := by
  unfold movement
  apply Proceed.bind (h (.expression _) s t hab (by simp only [Goal.rank]; omega)) hab
  intro first s₁ t₁ hab₁ hfwd₁ hn₁
  refine Proceed.weaken (n := 0) ?_ (by omega)
  refine Proceed.peek_bind frame hab₁ ?_
  split
  next op _ =>
    refine .ite (fun _ => ?_) fun _ => .reject_bind hab₁
    apply Proceed.move_bind frame hab₁
    intro s₂ t₂ hab₂ hfwd₂ hn₂
    apply Proceed.bind (h (.expression _) s₂ t₂ hab₂ (by simp only [Goal.rank]; omega)) hab₂
    intro second s₃ t₃ hab₃ hfwd₃ _
    have hpast₃ := hfwd₃.past_pos (hfwd₂.past_pos (hfwd₁.past_pos hpast))
    apply (expectStatementEnd_proceed frame hab₃ hpast₃).bind hab₃
    intro _ s₄ t₄ hab₄ _ _
    exact .ite (fun _ => .pure hab₄ (by omega)) fun _ => .pure hab₄ (by omega)
  next => exact .reject hab₁

theorem returnedValue_proceed (hab : Abreast corr s t) (hpast : 0 < s.past) (line : ℕ)
    (hrank : 3 * s.left + 5 < bound) :
    Proceed corr 0 (returnedValue parse line) (returnedValue parse' line) s t := by
  unfold returnedValue
  refine Proceed.atPunctuation_bind frame hab (.ite (fun _ => .pure hab rfl) fun _ => ?_)
  refine Proceed.takeKeyword_bind frame hab (fun s₁ t₁ hab₁ _ _ _ => ?_) fun _ => ?_
  · exact Proceed.atPunctuation_bind frame hab₁
      (.ite (fun _ => .pure hab₁ rfl) fun _ => .reject_bind hab₁)
  · apply Proceed.bind (h (.expression _) s t hab (by simp only [Goal.rank]; omega)) hab
    intro value s₁ t₁ hab₁ hfwd₁ _
    apply (expectStatementEnd_proceed frame hab₁ (hfwd₁.past_pos hpast)).bind hab₁
    intro _ s₂ t₂ hab₂ _ _
    exact .pure hab₂ (by omega)

theorem callStatement_proceed (hab : Abreast corr s t) (hleft : 0 < s.left) (line : ℕ)
    (hrank : 3 * s.left + 5 < bound) :
    Proceed corr 1 (callStatement parse line) (callStatement parse' line) s t := by
  unfold callStatement
  apply Proceed.bind (h (.expression _) s t hab (by simp only [Goal.rank]; omega)) hab
  intro call s₁ t₁ hab₁ hfwd₁ _
  have hpast₁ : 0 < s₁.past := by
    have := hfwd₁.past_le
    simp only [Goal.length] at this
    omega
  refine Proceed.weaken (n := 0) ?_ (by simp only [Goal.length]; omega)
  refine .ite (fun _ => ?_) fun _ => .reject_bind hab₁
  apply (expectStatementEnd_proceed frame hab₁ hpast₁).bind hab₁
  intro _ s₂ t₂ hab₂ _ _
  exact .pure hab₂ rfl

theorem constructStatement_proceed (hab : Abreast corr s t) (line : ℕ)
    (hrank : 3 * s.left + 5 < bound) :
    Proceed corr 0 (constructStatement parse line) (constructStatement parse' line) s t := by
  unfold constructStatement
  apply Proceed.bind (h (.expression _) s t hab (by simp only [Goal.rank]; omega)) hab
  intro target s₁ t₁ hab₁ _ hn₁
  apply (construction_proceed frame h hab₁ none (by omega)).bind hab₁
  intro construction s₂ t₂ hab₂ _ _
  exact .pure hab₂ (by omega)

/-! ## Branches -/

theorem condition_proceed (hab : Abreast corr s t) (line : ℕ) (missing : String)
    (hrank : 3 * s.left + 2 < bound) :
    Proceed corr 1 (condition parse line missing) (condition parse' line missing) s t := by
  unfold condition
  refine Proceed.takePunctuation_bind frame hab (fun s₁ t₁ hab₁ _ _ hn₁ => ?_)
    fun _ => .reject_bind hab
  apply Proceed.bind (h (.expression _) s₁ t₁ hab₁ (by simp only [Goal.rank]; omega)) hab₁
  intro condition s₂ t₂ hab₂ _ _
  apply (expectPunctuation_proceed frame hab₂ _ _).bind hab₂
  intro _ s₃ t₃ hab₃ _ _
  exact .pure hab₃ (by omega)

theorem branch_proceed (hab : Abreast corr s t) (hpast : 0 < s.past)
    (hrank : 3 * s.left + 9 < bound) :
    Proceed corr 0 (branch parse) (branch parse') s t := by
  unfold branch
  refine Proceed.currentLine_bind frame hab ?_
  apply Proceed.bind (h (.statement false) s t hab (by simp only [Goal.rank]; omega)) hab
  intro statement s₁ t₁ hab₁ hfwd₁ hn₁
  refine Proceed.weaken (n := 0) ?_ (by omega)
  have hpast₁ := hfwd₁.past_pos hpast
  refine Proceed.takePunctuation_bind frame hab₁ (fun s₂ t₂ hab₂ _ _ _ => ?_) fun _ => ?_
  · exact .pure hab₂ (by omega)
  · refine Proceed.previous_bind frame hab₁ hpast₁ ?_
    refine .ite (fun _ => .pure hab₁ rfl) fun _ => ?_
    exact Proceed.previousLine_bind frame hab₁ hpast₁ (.reject_bind hab₁)

theorem conditional_proceed (hab : Abreast corr s t) (hpast : 0 < s.past) (line : ℕ)
    (hrank : 3 * s.left + 6 < bound) :
    Proceed corr 0 (conditional parse line) (conditional parse' line) s t := by
  unfold conditional
  apply (condition_proceed frame h hab line _ (by omega)).bind hab
  intro condition s₁ t₁ hab₁ hfwd₁ hn₁
  have hpast₁ := hfwd₁.past_pos hpast
  apply (branch_proceed frame h hab₁ hpast₁ (by omega)).bind hab₁
  intro first s₂ t₂ hab₂ hfwd₂ hn₂
  refine Proceed.weaken (n := 0) ?_ (by omega)
  refine Proceed.takeKeyword_bind frame hab₂ (fun s₃ t₃ hab₃ _ hfwd₃ hn₃ => ?_)
    fun _ => .pure hab₂ rfl
  have hpast₃ := hfwd₃.past_pos (hfwd₂.past_pos hpast₁)
  apply (branch_proceed frame h hab₃ hpast₃ (by omega)).bind hab₃
  intro second s₄ t₄ hab₄ _ _
  exact .pure hab₄ (by omega)

theorem loop_proceed (hab : Abreast corr s t) (hpast : 0 < s.past) (line : ℕ)
    (hrank : 3 * s.left + 6 < bound) :
    Proceed corr 0 (loop parse line) (loop parse' line) s t := by
  unfold loop
  apply (condition_proceed frame h hab line _ (by omega)).bind hab
  intro condition s₁ t₁ hab₁ hfwd₁ hn₁
  apply (branch_proceed frame h hab₁ (hfwd₁.past_pos hpast) (by omega)).bind hab₁
  intro branch s₂ t₂ hab₂ _ _
  exact .pure hab₂ (by omega)

/-! ## Statements -/

omit frame h in
/-- What is known of two readings is known of them under a function of their values. -/
theorem Proceed.map {α β : Type} {n : ℕ} {p q : Parser α} (f : α → β)
    (h : Proceed corr n p q s t) (hab : Abreast corr s t) :
    Proceed corr n (f <$> p) (f <$> q) s t := by
  simp only [map_eq_pure_bind]
  exact h.bind hab fun _ _ _ hab₁ _ _ => .pure hab₁ (by omega)

theorem keywordStatement_proceed (hab : Abreast corr s t) (hpast : 0 < s.past)
    (isParameter : Bool) (token : Token) (hrank : 3 * s.left + 6 < bound) :
    Proceed corr 0 (keywordStatement parse isParameter token)
      (keywordStatement parse' isParameter token) s t := by
  unfold keywordStatement
  split
  · exact .map some (includeDirective_proceed frame hab hpast _) hab
  · exact .map some (declaration_proceed frame h hab hpast _ isParameter (by omega)) hab
  · exact .map some (allocation_proceed frame h hab hpast _ (by omega)) hab
  · exact .map some (assignment_proceed frame h hab hpast _ (by omega)) hab
  · exact .map some (movement_proceed frame h hab hpast _ (by omega)) hab
  · exact (returnedValue_proceed frame h hab hpast _ (by omega)).bind hab
      fun _ _ _ hab₁ _ _ => .pure hab₁ rfl
  · exact .map some (conditional_proceed frame h hab hpast _ hrank) hab
  · exact .map some (loop_proceed frame h hab hpast _ hrank) hab
  · exact .map some (definition_proceed frame h hab _ (by omega)) hab
  · exact .map some (constructStatement_proceed frame h hab _ (by omega)) hab
  · exact .pure hab rfl
  · exact .reject hab

theorem statementRule_proceed (hab : Abreast corr s t) (isParameter : Bool)
    (hrank : (Goal.statement isParameter).rank s.left ≤ bound) :
    Proceed corr (min 1 s.left) (statementRule parse isParameter)
      (statementRule parse' isParameter) s t := by
  simp only [Goal.rank] at hrank
  unfold statementRule
  apply Proceed.advance_bind frame hab
  intro token s₁ t₁ hab₁ _ hfwd₁ hn₁
  have hpast := hab.past_pos hfwd₁
  refine Proceed.weaken (n := 0) ?_ (by omega)
  split
  · exact keywordStatement_proceed frame h hab₁ hpast isParameter token (by omega)
  · exact .reject hab₁
  · refine .ite (fun _ => ?_) fun _ => .ite (fun _ => ?_) fun _ => .reject hab₁
    · apply Proceed.retreat_bind frame hab₁ hpast
      intro s₂ t₂ hab₂ hleft
      exact .map some (callStatement_proceed frame h hab₂ (by omega) _ (by omega)) hab₂
    · refine Proceed.bind (closedBlock_proceed frame h hab₁ _ ?_) hab₁
        fun block s₂ t₂ hab₂ _ _ => .pure hab₂ rfl
      simp only [Goal.rank]
      split <;> omega

end SinFrontend.Parser
