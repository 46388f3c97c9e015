import SinFrontend.Proofs.Onward.Types

/-!
# Where readers of expressions leave a session

The readers of operands, operations and constructions end onward of where they start, as long as
the readings that they ask for do. An operand that begins with a word of a type is read from behind
that word, goes back over it, and reads the word again as the first one of the type.

* `expressionRule_leadsFirst`: an expression reads its first token, whatever comes of it.
* `operationsRule_leads`: operations may read nothing.
-/

namespace SinFrontend.Parser

variable {loose : Prop} {parse : Descent}

theorem expectPunctuation_leads (symbol context : String) :
    LeadsOn loose (expectPunctuation symbol context) := by
  unfold expectPunctuation
  refine .bind (takePunctuation_leads symbol) fun taken => .ite (fun _ => .pure _) fun _ => ?_
  exact .bind looks_currentLine.on fun _ => .reject

theorem listKindOf_leads (opened : Grouping) : LeadsOn loose (listKindOf opened) := by
  unfold listKindOf
  split
  · exact .pure _
  · exact .bind looks_currentLine.on fun _ => .reject

theorem constructedType_leads : LeadsOn loose constructedType := by
  unfold constructedType
  exact .bind looks_peek.on fun next =>
    .ite (fun _ => .bind advance_leads fun _ => .pure _) fun _ => .pure _

/-! ## Marks behind an operand -/

theorem overrideQualities_leads (operand : Expression) :
    LeadsOn loose (overrideQualities operand) := by
  unfold overrideQualities
  refine .bind looks_currentLine.on fun line => .bind (fun s hs hany => ?_) fun qualities => ?_
  · refine (postfixedQualities_leads (fun _ _ => trivial) hs hany).explaining fun error => ?_
    split
    · exact fun _ => ⟨_, rfl⟩
    · exact fun _ => ⟨_, rfl⟩
  · split
    · exact .pure _
    · exact .reject
    · exact .reject

theorem markedOperand_leads (operand : Expression) : LeadsOn loose (markedOperand operand) := by
  unfold markedOperand atPostfixedMark
  simp only [bind_assoc, pure_bind]
  refine .bind looks_peek.on fun next => .bind looks_keywordFollows.on fun follows => ?_
  refine .ite (fun _ => .bind move_leads fun _ => ?_) fun _ => .pure _
  refine .bind (takeKeyword_leads _) fun taken => .ite (fun _ => .pure _) fun _ => ?_
  exact .bind (overrideQualities_leads operand) fun _ => .pure _

section

variable (h : LeadsAll loose parse)

include h

/-! ## Constructions -/

theorem initializersRule_leads : LeadsOn loose (initializersRule parse) := by
  have hmore (initializer : Initializer) :
      LeadsOn loose (do return initializer :: (← parse .initializers)) :=
    .bind h.initializers fun _ => .pure _
  unfold initializersRule
  refine .bind looks_peek.on fun next => .ite (fun _ => .pure _) fun _ => ?_
  refine .bind (h.expression _).on fun member => .bind (takeOperator_leads ":") fun taken => ?_
  refine .ite (fun _ => ?_) fun _ => .bind looks_currentLine.on fun _ => .reject_bind
  refine .bind (h.expression _).on fun value => .bind (takePunctuation_leads ",") fun _ => ?_
  refine .ite (fun _ => hmore _) fun _ => .bind (looks_atPunctuation _).on fun _ => ?_
  exact .ite (fun _ => hmore _) fun _ => .bind looks_currentLine.on fun _ => .reject_bind

theorem construction_leads (explicitType : Option String) :
    LeadsOn loose (construction parse explicitType) := by
  unfold construction
  refine .bind (expectPunctuation_leads _ _) fun _ => .bind h.initializers fun _ => ?_
  have hclose (a : Expression) : LeadsOn loose
      (do expectPunctuation Grouping.brace.closing "to close construction"; return a) :=
    .bind (expectPunctuation_leads _ _) fun _ => .pure _
  refine .bind (takeKeyword_leads _) fun _ => .ite (fun _ => ?_) fun _ => hclose _
  exact .bind (takePunctuation_leads ",").discard fun _ => hclose _

/-! ## Operands -/

theorem elementsRule_leads (context : Context) : LeadsOn loose (elementsRule parse context) := by
  unfold elementsRule
  refine .bind (takePunctuation_leads ",") fun _ => .ite (fun _ => ?_) fun _ => .pure _
  exact .bind (h.expression _).on fun _ => .bind (h.elements _) fun _ => .pure _

theorem group_leads (opened : Grouping) : LeadsOn loose (group parse opened) := by
  unfold group
  refine .bind (looks_atPunctuation _).on fun _ => .ite (fun _ => ?_) fun _ => ?_
  · exact .bind (listKindOf_leads opened) fun _ => .bind move_leads fun _ => .pure _
  · refine .bind (h.expression _).on fun first => .bind (looks_atPunctuation _).on fun _ => ?_
    refine .ite (fun _ => .bind (listKindOf_leads opened) fun kind => ?_) fun _ => ?_
    · exact .bind (h.elements _) fun _ =>
        .bind (expectPunctuation_leads _ _) fun _ => .pure _
    · exact .bind (expectPunctuation_leads _ _) fun _ => .pure _

theorem unary_leads (context : Context) (op : Operator) :
    LeadsOn loose (unary parse context op) :=
  .bind (h.expression _).on fun _ => .pure _

theorem operatorOperand_leads (context : Context) (token : Token) :
    LeadsOn loose (operatorOperand parse context token) := by
  unfold operatorOperand
  refine .ite (fun _ => .bind (h.expression _).on fun target => ?_) fun _ => ?_
  · split
    · exact .pure _
    · exact .reject
  · split
    · exact unary_leads h context _
    · exact .reject

/-- A type is read from its word on, which has been read before. -/
theorem keywordOperand_leads (context : Context) (token : Token) :
    Leads loose (fun s => 0 < s.past) (fun _ _ => True) (keywordOperand parse context token) := by
  have htype : LeadsFirst loose (fun _ _ => True)
      (do
        let type ← explaining (parse .typeName) fun _ =>
          return ⟨.unexpectedKeyword token.text, token.line⟩
        return Expression.typeName type false) := by
    have hexplained : LeadsFirst loose (fun _ => Session.Firm)
        (explaining (parse .typeName) fun _ =>
          return ⟨.unexpectedKeyword token.text, token.line⟩) :=
      fun s hs => (h.typeName hs).explaining fun _ _ => ⟨_, rfl⟩
    exact hexplained.bind fun _ => .pure fun _ _ => trivial
  unfold keywordOperand
  refine .ite (fun _ => (unary_leads h context _).leads) fun _ => ?_
  split
  · exact .pure fun _ _ => trivial
  · refine .ite (fun _ => ?_) fun _ => retreat_leads htype
    exact (LeadsOn.bind constructedType_leads fun word => construction_leads h word).leads

theorem operand_leads (context : Context) (token : Token) :
    Leads loose (fun s => token.kind ≠ .eof → 0 < s.past) (fun _ _ => True)
      (operand parse context token) := by
  unfold operand
  split
  next => exact .reject
  next => exact .pure fun _ _ => trivial
  next hkind =>
    have hword := keywordOperand_leads h context token
    exact (hword.mono (fun s hs => hs (by simp [hkind])) fun _ _ => id).bind fun _ =>
      .pure fun _ _ => trivial
  next => exact (LeadsOn.bind (operatorOperand_leads h context token) fun _ => .pure _).leads
  next =>
    split
    · exact (group_leads h _).leads
    · exact .reject
  all_goals exact .pure fun _ _ => trivial

theorem continueOperand_leads (context : Context) (marked : Bool) (operand : Expression × Bool) :
    LeadsOn loose (continueOperand parse context marked operand) := by
  unfold continueOperand atAssignment
  simp only [bind_assoc, pure_bind]
  refine .bind (markedOperand_leads _) fun layered => .ite (fun _ => .pure _) fun _ => ?_
  refine .bind looks_peek.on fun _ => .ite (fun _ => .pure _) fun _ => ?_
  exact h.operations _ _ _

/-- An expression reads at least its first token, or finds the end of input. -/
theorem expressionRule_leadsFirst (context : Context) :
    LeadsFirst loose (fun _ _ => True) (expressionRule parse context) := by
  have hoperand (marked : Bool) : LeadsFirst loose (fun _ _ => True)
      (do continueOperand parse context marked (← operand parse context (← advance))) :=
    advance_leadsFirst.bind fun token =>
      ((operand_leads h context token).mono (fun _ hs => hs.2) fun _ _ => id).bind fun operand =>
        continueOperand_leads h context marked operand
  exact take_leadsFirst (hoperand true).leads (hoperand false)

/-! ## Operations -/

omit h in
theorem combine_leads (op : Operator) (left right : Expression) (line : ℕ) :
    LeadsOn loose (combine op left right line) := by
  unfold combine
  split
  · split
    · exact .pure _
    · exact .reject
  · exact .pure _
  · exact .reject
  · exact .reject
  · exact .pure _

theorem operation_leads (left : Expression) (op : Operator) (context : Context) :
    LeadsOn loose (operation parse left op context) := by
  unfold operation
  split
  · refine .bind move_leads fun _ => .bind (h.expression _).on fun _ => ?_
    exact .bind (expectPunctuation_leads _ _) fun _ => .pure _
  · refine .bind (h.expression _).on fun args => ?_
    split
    · exact .pure _
    · exact .pure _
  · refine .bind looks_currentLine.on fun _ => .bind move_leads fun _ => ?_
    refine .bind (h.expression _).on fun _ => .bind (h.operations _ _ _) fun _ => ?_
    exact combine_leads op left _ _

theorem operationsRule_leads (left : Expression) (floor : ℕ) (context : Context) :
    LeadsOn loose (operationsRule parse left floor context) := by
  unfold operationsRule
  refine .bind looks_peek.on fun next => .ite (fun _ => .pure _) fun _ => ?_
  split
  · exact .reject
  · refine .ite (fun _ => .pure _) fun _ => .bind looks_keywordFollows.on fun _ => ?_
    refine .ite (fun _ => .pure _) fun _ => .ite (fun _ => .reject) fun _ => ?_
    refine .ite (fun _ => .pure _) fun _ => .bind (operation_leads h left _ context) fun _ => ?_
    exact h.operations _ _ _

end

end SinFrontend.Parser
