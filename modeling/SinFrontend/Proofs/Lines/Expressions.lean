import SinFrontend.Proofs.Lines.Types

/-!
# Readers of expressions on other lines

The readers of operands, operations and constructions use lines only for what they report.

* `expressionRule_renames`, `operationsRule_renames`: an expression is the same on other lines.
-/

namespace SinFrontend.Parser

variable {ρ : ℕ → ℕ} {parse : Descent}

theorem listKindOf_renames (opened : Grouping) :
    Renames ρ id (listKindOf opened) (listKindOf opened) := by
  unfold listKindOf
  cases opened.listKind? with
  | some kind => exact .pure kind
  | none => exact currentLine_renames.bind_onLines fun line => .reject _ line

theorem constructedType_renames : Renames ρ id constructedType constructedType := by
  unfold constructedType
  refine peek_renames.bind_onLines fun next => .ite ?_ (.pure none)
  exact advance_renames.bind_onLines fun token => .pure (some token.text)

/-! ## Marks behind an operand -/

theorem overrideQualities_renames (operand : Expression) :
    Renames ρ id (overrideQualities operand) (overrideQualities operand) := by
  unfold overrideQualities
  refine currentLine_renames.bind_onLines fun line => ?_
  refine (postfixedQualities_renames.explaining fun error => ?_).bind fun qualities => ?_
  · obtain ⟨cause, place⟩ := error
    cases cause with
    | qualityConflict quality => exact .pure _
    | _ =>
      exact peek_renames.bind_onLines fun next =>
        .pure (CompileError.mk (.expectedSymbolQuality next.text) line)
  · rcases operand.overrideQualities qualities with ⟨layered, _ | _ | conflict⟩
    · exact .pure layered
    · exact .reject _ line
    · exact rejectConflict_renames conflict line

theorem atPostfixedMark_renames : Renames ρ id atPostfixedMark atPostfixedMark :=
  peek_renames.bind_onLines fun next => keywordFollows_renames.bind fun follows =>
    .pure (next.isOperator "&" && follows)

theorem markedOperand_renames (operand : Expression) :
    Renames ρ id (markedOperand operand) (markedOperand operand) := by
  unfold markedOperand
  refine atPostfixedMark_renames.bind fun marked => .ite ?_ (.pure _)
  refine moveAdvance_renames.bind fun _ => (takeKeyword_renames _).bind fun taken => ?_
  refine .ite (.pure _) ?_
  exact (overrideQualities_renames operand).bind fun layered => .pure (layered, false)

theorem atAssignment_renames : Renames ρ id atAssignment atAssignment :=
  peek_renames.bind_onLines fun next =>
    .pure (next.operator?.any fun op => op.isCopyAssignment || op.isMoveAssignment)

section

variable (h : RenamesAll ρ parse)

include h

/-! ## Constructions -/

theorem initializersRule_renames :
    Renames ρ id (initializersRule parse) (initializersRule parse) := by
  unfold initializersRule
  refine peek_renames.bind_onLines fun next => .ite (.pure _) ?_
  refine (h (.expression _)).bind fun member => (takeOperator_renames ":").bind fun taken => ?_
  refine .ite ?_ (currentLine_renames.bind_onLines fun line => .reject_bind _ line)
  refine (h (.expression _)).bind fun value => (takePunctuation_renames ",").bind fun taken => ?_
  have hmore : Renames ρ id (do return ⟨member, value⟩ :: (← parse .initializers))
      (do return ⟨member, value⟩ :: (← parse .initializers)) :=
    (h .initializers).bind fun initializers => .pure _
  refine .ite hmore ((atPunctuation_renames _).bind fun closing => .ite hmore ?_)
  exact currentLine_renames.bind_onLines fun line => .reject_bind _ line

theorem construction_renames (explicitType : Option String) :
    Renames ρ id (construction parse explicitType) (construction parse explicitType) := by
  unfold construction
  refine (expectPunctuation_renames _ _).bind fun _ => (h .initializers).bind fun initializers => ?_
  refine (takeKeyword_renames _).bind fun hasDefault => ?_
  have hclose : Renames ρ id (do
        expectPunctuation Grouping.brace.closing "to close construction"
        return Expression.construction explicitType initializers hasDefault
          (initializers.all fun initializer => initializer.value.isConst))
      (do
        expectPunctuation Grouping.brace.closing "to close construction"
        return Expression.construction explicitType initializers hasDefault
          (initializers.all fun initializer => initializer.value.isConst)) :=
    (expectPunctuation_renames _ _).bind fun _ => .pure _
  exact .ite ((takePunctuation_renames ",").discard.bind fun _ => hclose) hclose

/-! ## Operands -/

theorem elementsRule_renames (context : Context) :
    Renames ρ id (elementsRule parse context) (elementsRule parse context) := by
  unfold elementsRule
  refine (takePunctuation_renames ",").bind fun taken => .ite ?_ (.pure _)
  exact (h (.expression _)).bind fun element => (h (.elements _)).bind fun elements => .pure _

theorem group_renames (opened : Grouping) :
    Renames ρ id (group parse opened) (group parse opened) := by
  unfold group
  refine (atPunctuation_renames _).bind fun closed => .ite ?_ ?_
  · exact (listKindOf_renames opened).bind fun kind => moveAdvance_renames.bind fun _ => .pure _
  · refine (h (.expression _)).bind fun first => (atPunctuation_renames _).bind fun more => ?_
    refine .ite ((listKindOf_renames opened).bind fun kind => ?_) ?_
    · exact (h (.elements _)).bind fun elements =>
        (expectPunctuation_renames _ _).bind fun _ => .pure _
    · exact (expectPunctuation_renames _ _).bind fun _ => .pure _

theorem unary_renames (context : Context) (op : Operator) :
    Renames ρ id (unary parse context op) (unary parse context op) :=
  (h (.expression _)).bind fun _ => .pure _

theorem operatorOperand_renames (context : Context) (token : Token) :
    Renames ρ id (operatorOperand parse context token)
      (operatorOperand parse context (token.onLines ρ)) := by
  unfold operatorOperand
  refine .ite ((h (.expression _)).bind fun target => ?_) ?_
  · cases target with
    | procedure name args constant => exact .pure _
    | _ => exact .reject _ token.line
  · dsimp only [Token.onLines_text]
    cases (Operator.ofSymbol? token.text).bind Operator.toUnary? with
    | some op => exact unary_renames h context op
    | none => exact .reject _ token.line

theorem keywordOperand_renames (context : Context) (token : Token) :
    Renames ρ id (keywordOperand parse context token)
      (keywordOperand parse context (token.onLines ρ)) := by
  unfold keywordOperand
  refine .ite (unary_renames h context _) ?_
  dsimp only [Token.onLines_text]
  cases Attribute.ofWord? token.text with
  | some attr => exact .pure _
  | none =>
    refine .ite (constructedType_renames.bind (construction_renames h)) ?_
    refine retreat_renames.bind fun _ => Renames.bind ?_ fun type => .pure _
    exact (h .typeName).explaining fun _ =>
      .pure (CompileError.mk (.unexpectedKeyword token.text) token.line)

theorem operand_renames (context : Context) (token : Token) :
    Renames ρ id (operand parse context token) (operand parse context (token.onLines ρ)) := by
  unfold operand
  dsimp only [Token.onLines_kind, Token.onLines_text]
  cases token.kind with
  | eof => exact .reject _ token.line
  | keyword => exact (keywordOperand_renames h context token).bind fun _ => .pure _
  | operator => exact (operatorOperand_renames h context token).bind fun _ => .pure _
  | punctuation =>
    cases Grouping.ofOpening? token.text with
    | some opened => exact group_renames h opened
    | none => exact .reject _ token.line
  | _ => exact .pure _

theorem continueOperand_renames (context : Context) (marked : Bool)
    (operand : Expression × Bool) : Renames ρ id (continueOperand parse context marked operand)
      (continueOperand parse context marked operand) := by
  unfold continueOperand
  refine (markedOperand_renames _).bind fun layered => .ite (.pure _) ?_
  exact atAssignment_renames.bind fun assigns => .ite (.pure _) (h (.operations _ _ _))

theorem expressionRule_renames (context : Context) :
    Renames ρ id (expressionRule parse context) (expressionRule parse context) :=
  (takeKeyword_renames _).bind fun marked => advance_renames.bind_onLines fun token =>
    (operand_renames h context token).bind fun operand =>
      continueOperand_renames h context marked operand

/-! ## Operations -/

omit h in
theorem combine_renames (op : Operator) (left right : Expression) (line : ℕ) :
    Renames ρ id (combine op left right line) (combine op left right (ρ line)) := by
  unfold combine
  dsimp only
  split
  · rcases attributeType.addQualities _ with ⟨type, _ | conflict⟩
    · exact .pure _
    · exact rejectConflict_renames conflict line
  · exact .pure _
  · exact .reject _ line
  · exact .reject _ line
  · exact .pure _

theorem operation_renames (left : Expression) (op : Operator) (context : Context) :
    Renames ρ id (operation parse left op context) (operation parse left op context) := by
  have hright : Renames ρ id (do
        let line ← currentLine
        move Cursor.advance
        let right ← parse (.expression (context.operand op.precedence))
        let right ← parse (.operations right op.precedence context)
        combine op left right line)
      (do
        let line ← currentLine
        move Cursor.advance
        let right ← parse (.expression (context.operand op.precedence))
        let right ← parse (.operations right op.precedence context)
        combine op left right line) :=
    currentLine_renames.bind_onLines fun line => moveAdvance_renames.bind fun _ =>
      (h (.expression _)).bind fun right => (h (.operations _ _ _)).bind fun right =>
        combine_renames op left right line
  cases op with
  | index =>
    exact moveAdvance_renames.bind fun _ => (h (.expression _)).bind fun index =>
      (expectPunctuation_renames _ _).bind fun _ => .pure _
  | procOperator =>
    refine (h (.expression _)).bind fun args => ?_
    cases args with
    | list kind elements qualities constant => exact .pure _
    | _ => exact .pure _
  | _ => exact hright

theorem operationsRule_renames (left : Expression) (floor : ℕ) (context : Context) :
    Renames ρ id (operationsRule parse left floor context)
      (operationsRule parse left floor context) := by
  unfold operationsRule
  refine peek_renames.bind_onLines fun next => .ite (.pure left) ?_
  dsimp only [Token.operator?_onLines]
  cases next.operator? with
  | none => exact .reject _ next.line
  | some op =>
    refine .ite (.pure left) (keywordFollows_renames.bind fun follows => ?_)
    refine .ite (.pure left) (.ite (.reject _ next.line) (.ite (.pure left) ?_))
    exact (operation_renames h left op context).bind fun combined => h (.operations _ _ _)

end

end SinFrontend.Parser
