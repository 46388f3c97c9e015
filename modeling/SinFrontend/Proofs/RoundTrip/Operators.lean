import SinFrontend.Proofs.Printing.Term
import SinFrontend.Proofs.Reading

/-!
# Reading single operators

What the parsers do on the token of an infix or prefix operator.
-/

namespace SinFrontend

theorem Operator.token_kind (op : Operator) (line : ℕ) :
    (op.token line).kind = .operator ∨ (op.token line).kind = .keyword := by
  unfold Operator.token Pattern.operator
  split
  · exact .inr rfl
  · exact .inl rfl

theorem Operator.token_kind_ne_eof (op : Operator) (line : ℕ) : (op.token line).kind ≠ .eof := by
  rcases op.token_kind line with h | h <;> simp [h]

/-- What holds of the operators that spellings name, and of the three prefix forms that share their
    spelling with another operator, holds of all operators. -/
theorem Operator.forall_of_spelled {p : Operator → Prop}
    (h : ∀ op ∈ unaryPlus :: unaryMinus :: dereference :: spelled, p op) (op : Operator) : p op := by
  apply h op
  cases op <;> simp [spelled]

theorem Operator.token_isKeyword_constexpr (op : Operator) (line : ℕ) :
    (op.token line).isKeyword "constexpr" = false := by
  have hsymbol : op.symbol ≠ "constexpr" := by
    apply Operator.forall_of_spelled _ op
    decide +kernel
  simp [Token.isKeyword, Token.hasForm, Operator.token, hsymbol]

theorem Operator.ofSymbol?_symbol :
    ∀ op ∈ Operator.spelled, Operator.ofSymbol? op.symbol = some op := by
  decide +kernel

/-- An operator that a spelling can name is named by its own. -/
theorem Operator.operator?_token {op : Operator} (hop : op ∈ Operator.spelled) (line : ℕ) :
    (op.token line).operator? = some op := by
  rw [← Operator.ofSymbol?_symbol op hop]
  unfold Token.operator? Operator.token Pattern.operator
  by_cases hreserved : Token.isReserved op.symbol = true
  · simp only [hreserved, if_true]
  · simp only [hreserved]
    rfl

/-- Only the operator `&` looks like the mark of an operand. -/
theorem Operator.token_isOperator_bitAnd (op : Operator) (line : ℕ) :
    (op.token line).isOperator "&" = (op == .bitAnd) := by
  have hform : ((Pattern.operator op).kind == .operator && op.symbol == "&") = (op == .bitAnd) := by
    apply Operator.forall_of_spelled _ op
    decide +kernel
  exact hform

namespace InfixOperator

variable (op : InfixOperator) (line : ℕ)

theorem operator?_token : (op.val.token line).operator? = some op.val := by
  refine Operator.operator?_token ?_ line
  have hinfix := op.property
  simp only [Operator.isInfix, Bool.and_eq_true] at hinfix
  exact List.contains_iff_mem.mp hinfix.1.1.1

theorem not_isPrefixOnly : op.val.isPrefixOnly = false := by
  obtain ⟨op, hop⟩ := op
  cases op <;> first | rfl | exact absurd hop (by decide)

theorem precedence_pos : 0 < op.val.precedence := by
  have : ∀ op : Operator, 0 < op.precedence := by
    intro op
    cases op <;> decide
  exact this op.val

/-- No infix operator binds exactly as tightly as the prefix operators. -/
theorem precedence_ne : op.val.precedence ≠ 20 := by
  have : ∀ op : Operator, op.isInfix = true → op.precedence ≠ 20 := by
    intro op
    cases op <;> decide
  exact this op.val op.property

/-- An infix operator is left to the statement around it only where assignments are. -/
theorem isLeftToStatement_eq (context : Context) :
    Parser.isLeftToStatement context op.val =
      (context.stopsAtAssignment && op.val.isCopyAssignment) := by
  have hstatement : ∀ op : Operator, op.isInfix = true →
      op.isMoveAssignment = false ∧ (op == .attributeSelection) = false := by
    intro op
    cases op <;> decide
  obtain ⟨hmove, hselection⟩ := hstatement op.val op.property
  simp [Parser.isLeftToStatement, hmove, hselection]

theorem endsExpression_token (context : Context) :
    Parser.endsExpression context (op.val.token line) = false := by
  rcases op.val.token_kind line with h | h <;>
    simp [Parser.endsExpression, Token.isPunctuation, Token.hasForm, h]

theorem operation_eq (parse : Descent) (left : Expression) (context : Context) :
    Parser.operation parse left op.val context = (do
      let line ← Parser.currentLine
      Parser.move Cursor.advance
      let right ← parse (.expression (context.operand op.val.precedence))
      let right ← parse (.operations right op.val.precedence context)
      Parser.combine op.val left right line) := by
  obtain ⟨op, hop⟩ := op
  cases op <;> first | rfl | exact absurd hop (by decide)

theorem combine_eq (left right : Expression) :
    Parser.combine op.val left right line =
      pure (.binary op.val left right (left.isConst && right.isConst)) := by
  obtain ⟨op, hop⟩ := op
  cases op <;> first | rfl | exact absurd hop (by decide)

end InfixOperator

namespace PrefixOperator

variable (op : PrefixOperator) (line : ℕ)

theorem precedence_eq : op.val.precedence = 20 := by
  obtain ⟨op, hop⟩ := op
  cases op <;> first | rfl | exact absurd hop (by decide)

theorem operand_eq (parse : Descent) (context : Context) :
    Parser.operand parse context (op.val.token line) = (do
      return (← Parser.unary parse context op.val, false)) := by
  obtain ⟨op, hop⟩ := op
  cases op <;> first | rfl | exact absurd hop (by decide)

end PrefixOperator

end SinFrontend
