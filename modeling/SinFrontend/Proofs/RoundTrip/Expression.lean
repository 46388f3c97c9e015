import SinFrontend.Proofs.Descent
import SinFrontend.Proofs.Groups
import SinFrontend.Proofs.RoundTrip.Operators

/-!
# Printed expressions are read back

Printing an expression with parentheses only where they are needed, and reading the text, gives
the expression back.

A text is not read as a node at once: its first operand is, and the operators behind it take up
what was read so far, one after another. So a term reads *up to* the operations behind it:
whatever the operations behind the whole term make of its tree, the expression as a whole is read
as that. The operators of a left spine bind tighter than the floor, the right operands end where
the term ends, and each closing symbol ends what is inside it.

* `readsBody`: every term reads up to the operations behind it.
* `expression_print`: a printed expression in front of a semicolon is read back.
-/

namespace SinFrontend

/-! ## Levels -/

namespace Term

/-- The outermost operator of a term binds tighter than a floor. A term that is one operand has no
    operator to compare. -/
def Clears (floor : ℕ) : Term → Prop
  | binary op _ _ => floor < op.val.precedence
  | indexed _ _ | procedure _ _ => floor < 25
  | _ => True

variable {floor : ℕ} {term : Term}

theorem clears_zero (term : Term) : term.Clears 0 := by
  cases term with
  | binary op _ _ => exact InfixOperator.precedence_pos op
  | _ => simp [Clears]

theorem clears_of_lt (h : floor < term.level) : term.Clears floor := by
  cases term <;> simp_all [Clears, level]

/-- No operator binds exactly as tightly as the prefix operators do. -/
theorem clears_of_operand (h : 20 ≤ term.level) : term.Clears 20 := by
  cases term with
  | binary op _ _ => exact lt_of_le_of_ne h (InfixOperator.precedence_ne op).symm
  | _ => simp [Clears]

/-- A literal is constant as it is. -/
theorem setConst_tree (term : Term) (h : term.tree.isLiteral = true) :
    term.tree.setConst true = term.tree := by
  cases term <;> simp_all [tree, Expression.isLiteral, Expression.ofLiteral, Expression.setConst]

end Term

/-! ## The beginning of a text -/

/-- A text begins like an operand, on any line: with a name, a literal, an opening parenthesis or
    a prefix operator. -/
def BeginsOperand (text : List Pattern) : Prop :=
  ∃ first more, text = first :: more ∧ first.line = none ∧ first.kind ≠ .eof ∧
    (first.kind = .punctuation → first.text = "(") ∧ (first.kind = .keyword → first.text = "not")

theorem beginsOperand_parenthesized {enclosed : Bool} {text : List Pattern}
    (h : BeginsOperand text) : BeginsOperand (Style.parenthesized enclosed text) := by
  cases enclosed with
  | false => exact h
  | true => exact ⟨_, _, rfl, rfl, by simp [Pattern.mark], fun _ => rfl, by simp [Pattern.mark]⟩

theorem BeginsOperand.append {text : List Pattern} (h : BeginsOperand text)
    (more : List Pattern) : BeginsOperand (text ++ more) := by
  obtain ⟨first, rest, rfl, hfirst⟩ := h
  exact ⟨first, rest ++ more, rfl, hfirst⟩

theorem beginsOperand_operator (op : Operator) (hop : op.isInfix = false) (more : List Pattern)
    (hword : op ≠ .typecast) : BeginsOperand (.operator op :: more) := by
  have : ∀ op : Operator, op.isInfix = false → op ≠ .typecast →
      (Pattern.operator op).kind = .keyword → op.symbol = "not" := by
    intro op
    cases op <;> decide
  refine ⟨_, _, rfl, rfl, ?_, ?_, this op hop hword⟩
  · rcases op.token_kind 0 with h | h <;> exact fun heof => by simp_all [Operator.token]
  · rcases op.token_kind 0 with h | h <;> exact fun hpunct => by simp_all [Operator.token]

theorem beginsOperand_body (style : Style) : ∀ term : Term, BeginsOperand (term.body style)
  | .name _ => ⟨_, _, rfl, rfl, by simp [Pattern.identifier], by simp [Pattern.identifier],
    by simp [Pattern.identifier]⟩
  | .literal kind _ => by
    refine ⟨_, _, rfl, rfl, ?_, ?_, ?_⟩ <;> cases kind <;> simp [LiteralKind.token]
  | .unary op _ => by
    have : ∀ op : Operator, op.toUnary? = some op → op.isInfix = false ∧ op ≠ .typecast := by
      intro op
      cases op <;> decide
    obtain ⟨hbetween, hword⟩ := this op.val op.property
    exact beginsOperand_operator op.val hbetween _ hword
  | .binary _ left _ => (beginsOperand_parenthesized (beginsOperand_body style left)).append _
  | .indexed target _ => (beginsOperand_parenthesized (beginsOperand_body style target)).append _
  | .procedure callee _ => (beginsOperand_parenthesized (beginsOperand_body style callee)).append _
  | .call _ _ => beginsOperand_operator .controlTransfer rfl _ (by decide)

theorem beginsOperand_place (style : Style) (least : ℕ) (term : Term) :
    BeginsOperand (term.place style least) :=
  beginsOperand_parenthesized (beginsOperand_body style term)

/-- In parentheses, and wherever it does not begin with a reserved word, a text does not. -/
theorem startsWithWord_parenthesized (enclosed : Bool) (text : List Pattern) :
    startsWithWord (Style.parenthesized (enclosed || (true && startsWithWord text)) text) =
      false := by
  cases hbegins : startsWithWord text with
  | false =>
    cases enclosed with
    | false => exact hbegins
    | true => rfl
  | true => rw [Bool.and_self, Bool.or_true]; rfl

/-- What a text that begins like an operand says about its tokens. -/
theorem BeginsOperand.spells {text : List Pattern} (h : BeginsOperand text) {tokens : List Token}
    (hspells : Spells text tokens) :
    ∃ first more, tokens = first :: more ∧ first.kind ≠ .eof ∧
      (∀ mark, mark ≠ "(" → first.isPunctuation mark = false) ∧
      (∀ word, word ≠ "not" → first.isKeyword word = false) ∧
      ∀ rest, Parser.keywordAhead (tokens ++ rest) = startsWithWord text := by
  obtain ⟨pattern, patterns, rfl, -, hkind, hmark, hword⟩ := h
  obtain ⟨line, more, -, -, rfl⟩ := spells_cons_iff.mp hspells
  refine ⟨_, more, rfl, hkind, fun mark hne => ?_, fun word hne => ?_, fun _ => rfl⟩
  · rw [Parser.isPunctuation_mk, Bool.and_eq_false_iff, beq_eq_false_iff_ne, beq_eq_false_iff_ne]
    by_cases hpunct : pattern.kind = .punctuation
    · rw [hmark hpunct]
      exact .inr hne.symm
    · exact .inl hpunct
  · rw [Parser.isKeyword_mk, Bool.and_eq_false_iff, beq_eq_false_iff_ne, beq_eq_false_iff_ne]
    by_cases hreserved : pattern.kind = .keyword
    · rw [hword hreserved]
      exact .inr hne.symm
    · exact .inl hreserved

/-- A text that begins like an operand, with its first token on a given line. -/
theorem BeginsOperand.spells_startingOn {text : List Pattern} (h : BeginsOperand text) {line : ℕ}
    {tokens : List Token} (hspells : Spells (Pattern.startingOn line text) tokens) :
    Spells text tokens ∧ ∀ first ∈ tokens.head?, first.line = line := by
  obtain ⟨pattern, patterns, rfl, hline, -⟩ := h
  obtain ⟨line', more, hon, hmore, rfl⟩ := spells_cons_iff.mp hspells
  refine ⟨spells_cons_iff.mpr ⟨line', more, by simp [hline], hmore, rfl⟩, ?_⟩
  rintro first ⟨rfl⟩
  exact hon line rfl

namespace Parser

variable {style : Style} {base : Session} {context : Context} {passed rest : List Token}
  {next : Token} {result : Expression} {s' : Session}

/-! ## First operands -/

/-- An expression reads as far as the operations behind its first operand do. -/
theorem reads_of_operand {base' : Session} {first : Token} {ahead passed' : List Token}
    {value : Expression} (hfirst : first.isKeyword "constexpr" = false) (heof : first.kind ≠ .eof)
    (hahead : ahead ≠ []) (hplain : context.primaryOnly = false)
    (hconst : value.isLiteral = true → value.setConst true = value) (hmark : Unmarked next rest)
    (hoperand : ∀ᶠ steps in Filter.atTop,
      operand (descend steps) context first (base.between (first :: passed) ahead) =
        .ok (value, false) (base'.between passed' (next :: rest)))
    (h : Reads (.operations value context.floor context) (base'.between passed' (next :: rest))
      result s') :
    Reads (.expression context) (base.between passed (first :: ahead)) result s' := by
  refine .of_rule ?_
  filter_upwards [hoperand, continue_of_operations hconst hplain hmark h] with steps h₁ h₂
  show expressionRule (descend steps) context _ = _
  simp [expressionRule, hfirst, heof, hahead, h₁, h₂]

/-- A group in parentheses is read as what is inside it. -/
theorem group_of_reads {inside opened : List Token} {closing : Token} {value : Expression}
    (hopened : ∃ first more, inside = first :: more ∧ first.isPunctuation ")" = false)
    (hclosing : closing.isPunctuation ")" = true)
    (h : Reads (.expression (.within .paren))
      (base.between opened (inside ++ closing :: next :: rest)) value
      (base.between (inside.reverse ++ opened) (closing :: next :: rest))) :
    ∀ᶠ steps in Filter.atTop,
      group (descend steps) .paren (base.between opened (inside ++ closing :: next :: rest)) =
        .ok (value, false)
          (base.between (closing :: (inside.reverse ++ opened)) (next :: rest)) := by
  obtain ⟨first, more, rfl, hfirst⟩ := hopened
  have hcomma : closing.isPunctuation "," = false := isPunctuation_of_ne hclosing (by decide)
  have hgroup := group_of_elements hfirst h (by simp [hcomma])
    (reads_elements_nil hcomma (.within .paren)) hclosing
  have heof : closing.kind ≠ .eof := by simp [kind_of_isPunctuation hclosing]
  simpa [heof, groupOf] using hgroup

/-! ## Terms -/

/-- A context in which the text of a term may stand without parentheses: operations are read, the
    outermost operator binds tighter than the floor, and an assignment is not taken for the one of
    a statement. -/
structure Admits (style : Style) (context : Context) (term : Term) : Prop where
  plain : context.primaryOnly = false
  clears : term.Clears context.floor
  guarded : context.stopsAtAssignment = true → style.guarded = true ∧ term.isAssignment = false

/-- The text of a term without parentheses around it reads up to the operations behind it. -/
def ReadsBody (style : Style) (term : Term) : Prop :=
  ∀ ⦃base : Session⦄ ⦃context : Context⦄ ⦃passed tokens rest : List Token⦄ ⦃next : Token⦄
    ⦃result : Expression⦄ ⦃s' : Session⦄,
    Spells (term.body style) tokens → Admits style context term →
    Closes context term.level next rest →
    Reads (.operations term.tree context.floor context)
      (base.between (tokens.reverse ++ passed) (next :: rest)) result s' →
    Reads (.expression context) (base.between passed (tokens ++ next :: rest)) result s'

/-- What stands at the end of a text that may be in parentheses: behind parentheses, anything but
    the mark of an operand. -/
theorem reads_parenthesized {term : Term} {enclosed : Bool} {tokens : List Token}
    (h : ReadsBody style term)
    (hspells : Spells (Style.parenthesized enclosed (term.body style)) tokens)
    (hplain : context.primaryOnly = false) (hmark : Unmarked next rest)
    (hbare : enclosed = false → Admits style context term ∧ Closes context term.level next rest)
    (hmore : Reads (.operations term.tree context.floor context)
      (base.between (tokens.reverse ++ passed) (next :: rest)) result s') :
    Reads (.expression context) (base.between passed (tokens ++ next :: rest)) result s' := by
  cases enclosed with
  | false =>
    obtain ⟨hadmits, hcloses⟩ := hbare rfl
    exact h hspells hadmits hcloses hmore
  | true =>
    obtain ⟨line, more, hgroup, rfl⟩ := spells_mark_iff.mp hspells
    obtain ⟨line', inside, hinside, rfl⟩ := spells_concat_mark_iff.mp hgroup
    obtain ⟨first, more, hfirst, -, hmarks, -⟩ := (beginsOperand_body style term).spells hinside
    have hend : Closes (.within .paren) 0 ⟨.punctuation, ")", line'⟩ (next :: rest) :=
      ⟨rfl, .inl rfl⟩
    have hread : Reads (.expression (.within .paren))
        (base.between (⟨.punctuation, "(", line⟩ :: passed)
          (inside ++ ⟨.punctuation, ")", line'⟩ :: next :: rest)) term.tree
        (base.between (inside.reverse ++ ⟨.punctuation, "(", line⟩ :: passed)
          (⟨.punctuation, ")", line'⟩ :: next :: rest)) := by
      refine h hinside ⟨rfl, term.clears_zero, by simp [Context.within]⟩
        (hend.mono (Nat.zero_le _)) ?_
      exact reads_operations_of_closes hend
    have hgroup := group_of_reads ⟨first, more, hfirst, hmarks _ (by decide)⟩ rfl hread
    simp only [List.cons_append, List.append_assoc, List.reverse_cons,
      List.reverse_append, List.nil_append, List.reverse_nil] at hmore ⊢
    refine reads_of_operand rfl (by simp) (by simp) hplain ?_ hmark hgroup hmore
    exact term.setConst_tree

theorem Style.encloses_eq_false_iff {style : Style} {least : ℕ} {term : Term} :
    style.encloses least term = false ↔
      least ≤ term.level ∧ (style.guarded = true → term.isAssignment = false) := by
  simp [Style.encloses]

theorem Closes.operand {level : ℕ} (h : Closes context level next rest) (floor : ℕ) :
    Closes (context.operand floor) level next rest :=
  ⟨h.unmarked, h.stops⟩

theorem readsBody_name (text : String) : ReadsBody style (.name text) := by
  intro base context passed tokens rest next result s' hspells hadmits hcloses hmore
  obtain ⟨line, more, hnil, rfl⟩ := spells_identifier_iff.mp hspells
  obtain rfl := spells_nil_iff.mp hnil
  refine reads_of_operand rfl (by simp) (by simp) hadmits.plain (Term.setConst_tree (.name text))
    hcloses.unmarked (.of_forall fun steps => ?_) hmore
  simp [operand, Term.tree]

theorem readsBody_literal (kind : LiteralKind) (text : String) :
    ReadsBody style (.literal kind text) := by
  intro base context passed tokens rest next result s' hspells hadmits hcloses hmore
  obtain ⟨line, more, -, hnil, rfl⟩ := spells_cons_iff.mp hspells
  obtain rfl := spells_nil_iff.mp hnil
  refine reads_of_operand ?_ ?_ (by simp) hadmits.plain (Term.setConst_tree (.literal kind text))
    hcloses.unmarked (.of_forall fun steps => ?_) hmore
  · cases kind <;> rfl
  · cases kind <;> simp [LiteralKind.token]
  · cases kind <;> simp [operand, Term.tree, LiteralKind.token, LiteralKind.primary]

theorem readsBody_unary (op : PrefixOperator) {operand : Term} (h : ReadsBody style operand) :
    ReadsBody style (.unary op operand) := by
  intro base context passed tokens rest next result s' hspells hadmits hcloses hmore
  obtain ⟨line, more, hoperand, rfl⟩ := spells_operator_iff.mp hspells
  have hread : Reads (.expression (context.operand 20))
      (base.between (op.val.token line :: passed) (more ++ next :: rest)) operand.tree
      (base.between (more.reverse ++ op.val.token line :: passed) (next :: rest)) := by
    refine reads_parenthesized h hoperand rfl hcloses.unmarked (fun hbare => ?_)
      (reads_operations_of_closes (hcloses.operand 20))
    obtain ⟨hlevel, hguard⟩ := Style.encloses_eq_false_iff.mp hbare
    refine ⟨⟨rfl, Term.clears_of_operand hlevel, fun hstops => ?_⟩,
      (hcloses.operand 20).mono hlevel⟩
    obtain ⟨hguarded, -⟩ := hadmits.guarded hstops
    exact ⟨hguarded, hguard hguarded⟩
  simp only [List.cons_append, List.reverse_cons, List.append_assoc, List.nil_append] at hmore ⊢
  refine reads_of_operand (op.val.token_isKeyword_constexpr line) (op.val.token_kind_ne_eof line)
    (by simp) hadmits.plain (Term.setConst_tree (.unary op operand)) hcloses.unmarked ?_ hmore
  filter_upwards [hread] with steps hsteps
  rw [PrefixOperator.operand_eq]
  simp [unary, PrefixOperator.precedence_eq, hsteps, Term.tree]

/-! ## Binary operators -/

/-- An infix operator in operations: its right operand is read, and the operations behind that one
    go on from the node. -/
theorem reads_operations_infix (op : InfixOperator) {left right : Expression} {floor line : ℕ}
    {ahead : List Token} {middle : Session} (hfloor : floor < op.val.precedence)
    (hguard : context.stopsAtAssignment = true → op.val.isCopyAssignment = false)
    (hword : op.val = .bitAnd → keywordAhead ahead = false) (hahead : ahead ≠ [])
    (hright : Reads (.expression (context.operand op.val.precedence))
      (base.between (op.val.token line :: passed) ahead) right middle)
    (hstay : Reads (.operations right op.val.precedence context) middle right middle)
    (hmore : Reads (.operations (.binary op.val left right (left.isConst && right.isConst)) floor
      context) middle result s') :
    Reads (.operations left floor context) (base.between passed (op.val.token line :: ahead))
      result s' := by
  have hstatement : isLeftToStatement context op.val = false := by
    rw [InfixOperator.isLeftToStatement_eq]
    cases hstops : context.stopsAtAssignment with
    | false => rfl
    | true => exact hguard hstops
  refine .of_rule ?_
  filter_upwards [hright, hstay, hmore] with steps h₁ h₂ h₃
  show operationsRule (descend steps) left floor context _ = _
  simp [operationsRule, InfixOperator.endsExpression_token, InfixOperator.operator?_token,
    hstatement, InfixOperator.not_isPrefixOnly, Nat.not_le.mpr hfloor, InfixOperator.operation_eq,
    InfixOperator.combine_eq, Operator.token_kind_ne_eof, hahead, h₁, h₂, h₃]
  intro hand hfollows
  exact absurd (hword hand) (by rw [keywordAhead, hfollows]; decide)

theorem readsBody_binary (op : InfixOperator) {left right : Term} (hl : ReadsBody style left)
    (hr : ReadsBody style right) : ReadsBody style (.binary op left right) := by
  intro base context passed tokens rest next result s' hspells hadmits hcloses hmore
  obtain ⟨front, back, hleft, hback, rfl⟩ := spells_append_iff.mp hspells
  obtain ⟨line, more, hright, rfl⟩ := spells_operator_iff.mp hback
  have hguard (hstops : context.stopsAtAssignment = true) : op.val.isCopyAssignment = false :=
    (hadmits.guarded hstops).2
  have hword : op.val = .bitAnd → keywordAhead (more ++ next :: rest) = false := by
    intro hand
    obtain ⟨-, -, -, -, -, -, hahead⟩ :=
      (beginsOperand_parenthesized (beginsOperand_body style right)).spells hright
    rw [hahead, hand]
    exact startsWithWord_parenthesized _ _
  have hopcloses : Closes context op.val.precedence (op.val.token line) (more ++ next :: rest) := by
    refine ⟨?_, .inr ⟨op.val, op.operator?_token line, .inr ⟨op.not_isPrefixOnly, le_rfl⟩⟩⟩
    unfold Unmarked
    rw [Operator.token_isOperator_bitAnd]
    cases hand : op.val == .bitAnd with
    | false => rfl
    | true => exact hword (by simpa using hand)
  have hread : Reads (.expression (context.operand op.val.precedence))
      (base.between (op.val.token line :: (front.reverse ++ passed)) (more ++ next :: rest))
      right.tree
      (base.between (more.reverse ++ op.val.token line :: (front.reverse ++ passed))
        (next :: rest)) := by
    refine reads_parenthesized hr hright rfl hcloses.unmarked (fun hbare => ?_)
      (reads_operations_of_closes (hcloses.operand _))
    rw [Bool.or_eq_false_iff, Style.encloses_eq_false_iff] at hbare
    obtain ⟨⟨hlevel, hassign⟩, -⟩ := hbare
    refine ⟨⟨rfl, Term.clears_of_lt hlevel, fun hstops => ?_⟩,
      (hcloses.operand _).mono (Nat.le_of_succ_le hlevel)⟩
    obtain ⟨hguarded, -⟩ := hadmits.guarded hstops
    exact ⟨hguarded, hassign hguarded⟩
  simp only [List.cons_append, List.append_assoc, List.reverse_append, List.reverse_cons,
    List.nil_append] at hmore ⊢
  refine reads_parenthesized hl hleft hadmits.plain hopcloses.unmarked (fun hbare => ?_) ?_
  · obtain ⟨hlevel, hassign⟩ := Style.encloses_eq_false_iff.mp hbare
    have hclears : context.floor < op.val.precedence := hadmits.clears
    refine ⟨⟨hadmits.plain, Term.clears_of_lt (hclears.trans_le hlevel), fun hstops => ?_⟩,
      hopcloses.mono hlevel⟩
    obtain ⟨hguarded, -⟩ := hadmits.guarded hstops
    exact ⟨hguarded, hassign hguarded⟩
  · exact reads_operations_infix op hadmits.clears hguard hword (by simp) hread
      (reads_operations_of_closes hcloses) hmore

/-! ## Indices -/

/-- An opening bracket or parenthesis behind an operand is taken as an operator, unless the floor
    is above it. -/
theorem operationsRule_opening {op : Operator} (hop : op = .index ∨ op = .procOperator)
    {floor line : ℕ} (hfloor : floor < 25) (parse : Descent) (left : Expression)
    (ahead : List Token) :
    operationsRule parse left floor context
        (base.between passed (⟨.punctuation, op.symbol, line⟩ :: ahead)) =
      (operation parse left op context >>= fun combined =>
        parse (.operations combined floor context))
        (base.between passed (⟨.punctuation, op.symbol, line⟩ :: ahead)) := by
  have hends : endsExpression context ⟨.punctuation, op.symbol, line⟩ = false := by
    unfold endsExpression
    rcases hop with rfl | rfl <;> cases context.closing <;> cases context.stopsAtBrace <;> rfl
  have hspelled : Token.operator? ⟨.punctuation, op.symbol, line⟩ = some op := by
    rcases hop with rfl | rfl <;> rfl
  have hstatement : isLeftToStatement context op = false := by
    rcases hop with rfl | rfl <;> cases hstops : context.stopsAtAssignment <;>
      simp [isLeftToStatement, hstops] <;> decide
  have hop' : op ≠ .bitAnd ∧ op.isPrefixOnly = false ∧ op.precedence = 25 := by
    rcases hop with rfl | rfl <;> decide
  obtain ⟨hand, hprefixes, hprec⟩ := hop'
  simp [operationsRule, hends, hspelled, hstatement, hand, hprefixes, hprec, Nat.not_le.mpr hfloor]

theorem readsBody_indexed {target index : Term} (ht : ReadsBody style target)
    (hi : ReadsBody style index) : ReadsBody style (.indexed target index) := by
  intro base context passed tokens rest next result s' hspells hadmits hcloses hmore
  obtain ⟨front, back, htarget, hback, rfl⟩ := spells_append_iff.mp hspells
  obtain ⟨line, more, hindex, rfl⟩ := spells_mark_iff.mp hback
  obtain ⟨line', inside, hinside, rfl⟩ := spells_concat_mark_iff.mp hindex
  have hend : Closes (.within .bracket) 0 ⟨.punctuation, "]", line'⟩ (next :: rest) :=
    ⟨rfl, .inl rfl⟩
  have hread : Reads (.expression (.within .bracket))
      (base.between (⟨.punctuation, "[", line⟩ :: (front.reverse ++ passed))
        (inside ++ ⟨.punctuation, "]", line'⟩ :: next :: rest)) index.tree
      (base.between (inside.reverse ++ ⟨.punctuation, "[", line⟩ :: (front.reverse ++ passed))
        (⟨.punctuation, "]", line'⟩ :: next :: rest)) := by
    refine reads_parenthesized hi hinside rfl rfl (fun _ => ?_) (reads_operations_of_closes hend)
    exact ⟨⟨rfl, index.clears_zero, by simp [Context.within]⟩, hend.mono (Nat.zero_le _)⟩
  have hbracket : Closes context 25 ⟨.punctuation, "[", line⟩
      (inside ++ ⟨.punctuation, "]", line'⟩ :: next :: rest) :=
    ⟨rfl, .inr ⟨.index, rfl, .inr ⟨rfl, le_rfl⟩⟩⟩
  have hclears : context.floor < 25 := hadmits.clears
  simp only [List.cons_append, List.append_assoc, List.reverse_append, List.reverse_cons,
    List.reverse_nil, List.nil_append] at hmore ⊢
  refine reads_parenthesized ht htarget hadmits.plain rfl (fun hbare => ?_) ?_
  · obtain ⟨hlevel, hassign⟩ := Style.encloses_eq_false_iff.mp hbare
    refine ⟨⟨hadmits.plain, Term.clears_of_lt (hclears.trans_le hlevel), fun hstops => ?_⟩,
      hbracket.mono hlevel⟩
    obtain ⟨hguarded, -⟩ := hadmits.guarded hstops
    exact ⟨hguarded, hassign hguarded⟩
  · refine .of_rule ?_
    filter_upwards [hread, hmore] with steps h₁ h₂
    show operationsRule (descend steps) target.tree context.floor context _ = _
    refine (operationsRule_opening (.inl rfl) hclears _ _ _).trans ?_
    simp only [Term.tree] at h₂
    simp [operation, Parser.index, h₁, expectPunctuation, Grouping.closing, Operator.symbol, h₂]

/-! ## Arguments -/

/-- The texts of arguments with a comma before each of them are read as elements of a list. -/
def ReadsFurther (style : Style) (terms : List Term) : Prop :=
  ∀ (base : Session) (passed tokens rest : List Token) (line : ℕ),
    Spells (Term.further style terms) tokens →
    Reads (.elements (.within .paren))
      (base.between passed (tokens ++ ⟨.punctuation, ")", line⟩ :: rest)) (Term.trees terms)
      (base.between (tokens.reverse ++ passed) (⟨.punctuation, ")", line⟩ :: rest))

/-- Behind an argument stands the comma of the next one, or the closing parenthesis. -/
theorem closes_further {terms : List Term} {tokens : List Token} (rest : List Token) (line : ℕ)
    (h : Spells (Term.further style terms) tokens) :
    ∃ next more, tokens ++ ⟨.punctuation, ")", line⟩ :: rest = next :: more ∧
      Closes (.within .paren) 0 next more := by
  cases terms with
  | nil =>
    obtain rfl := spells_nil_iff.mp h
    exact ⟨_, _, rfl, rfl, .inl rfl⟩
  | cons term terms =>
    obtain ⟨line', more, -, rfl⟩ := spells_mark_iff.mp h
    exact ⟨_, _, rfl, rfl, .inl rfl⟩

/-- An argument in front of further ones is read. -/
theorem reads_argument (base : Session) (passed rest : List Token) (line : ℕ) {term : Term}
    {terms : List Term} {front back : List Token} (h : ReadsBody style term)
    (hfront : Spells (term.place style 0) front)
    (hback : Spells (Term.further style terms) back) :
    Reads (.expression (.within .paren))
      (base.between passed (front ++ (back ++ ⟨.punctuation, ")", line⟩ :: rest))) term.tree
      (base.between (front.reverse ++ passed) (back ++ ⟨.punctuation, ")", line⟩ :: rest)) := by
  obtain ⟨next, more, hahead, hcloses⟩ := closes_further rest line hback
  rw [hahead]
  refine reads_parenthesized h hfront rfl hcloses.unmarked (fun _ => ?_)
    (reads_operations_of_closes hcloses)
  exact ⟨⟨rfl, term.clears_zero, by simp [Context.within]⟩, hcloses.mono (Nat.zero_le _)⟩

theorem readsFurther_nil : ReadsFurther style [] := by
  intro base passed tokens rest line hspells
  obtain rfl := spells_nil_iff.mp hspells
  exact reads_elements_nil rfl _

theorem readsFurther_cons {term : Term} {terms : List Term} (h : ReadsBody style term)
    (hmore : ReadsFurther style terms) : ReadsFurther style (term :: terms) := by
  intro base passed tokens rest line hspells
  obtain ⟨line', more, hargs, rfl⟩ := spells_mark_iff.mp hspells
  obtain ⟨front, back, hfront, hback, rfl⟩ := spells_append_iff.mp hargs
  have hread := reads_argument base (⟨.punctuation, ",", line'⟩ :: passed) rest line h hfront hback
  have helements := hmore base (front.reverse ++ ⟨.punctuation, ",", line'⟩ :: passed) back rest
    line hback
  simpa [Term.trees] using reads_elements_cons rfl (by simpa using hread) helements

/-- What the group of arguments is read as. -/
def argumentGroup : List Term → Expression × Bool
  | [] => (.emptyList .tuple, true)
  | [term] => (term.tree, false)
  | terms =>
    (.list .tuple (Term.trees terms) .empty ((Term.trees terms).all Expression.isConst), true)

/-- The texts of arguments in parentheses are read as a group. -/
def ReadsFirst (style : Style) (terms : List Term) : Prop :=
  ∀ (base : Session) (passed tokens rest : List Token) (next : Token) (line : ℕ),
    Spells (Term.first style terms) tokens →
    ∀ᶠ steps in Filter.atTop,
      group (descend steps) .paren
          (base.between passed (tokens ++ ⟨.punctuation, ")", line⟩ :: next :: rest)) =
        .ok (argumentGroup terms)
          (base.between (⟨.punctuation, ")", line⟩ :: (tokens.reverse ++ passed)) (next :: rest))

theorem argumentGroup_eq (terms : List Term) :
    argumentGroup terms = groupOf (Term.trees terms) := by
  match terms with
  | [] | [_] | _ :: _ :: _ => rfl

theorem readsFirst_nil : ReadsFirst style [] := by
  intro base passed tokens rest next line hspells
  obtain rfl := spells_nil_iff.mp hspells
  refine .of_forall fun steps => ?_
  simp [group_empty, argumentGroup_eq, Term.trees]

theorem readsFirst_cons {term : Term} {terms : List Term} (h : ReadsBody style term)
    (hmore : ReadsFurther style terms) : ReadsFirst style (term :: terms) := by
  intro base passed tokens rest next line hspells
  obtain ⟨front, back, hfront, hback, rfl⟩ := spells_append_iff.mp hspells
  have hread := reads_argument base passed (next :: rest) line h hfront hback
  have helements := hmore base (front.reverse ++ passed) back (next :: rest) line hback
  obtain ⟨first, more, rfl, -, hmarks, -⟩ := (beginsOperand_place style 0 term).spells hfront
  have hopen : (base.between passed (first :: (more ++ (back ++
      ⟨.punctuation, ")", line⟩ :: next :: rest)))).cursor.current.isPunctuation ")" = false :=
    hmarks _ (by decide)
  have hcomma : (base.between ((first :: more).reverse ++ passed) (back ++
      ⟨.punctuation, ")", line⟩ :: next :: rest)).cursor.current.isPunctuation "," = true ↔
      Term.trees terms ≠ [] := by
    cases terms with
    | nil =>
      obtain rfl := spells_nil_iff.mp hback
      simp [Term.trees]
    | cons second terms =>
      obtain ⟨line', rest', -, rfl⟩ := spells_mark_iff.mp hback
      simp [Term.trees]
  simpa [argumentGroup_eq, Term.trees] using
    group_of_elements hopen hread hcomma helements rfl

/-! ## Procedures and calls -/

theorem setConst_argumentGroup (terms : List Term)
    (h : (argumentGroup terms).1.isLiteral = true) :
    (argumentGroup terms).1.setConst true = (argumentGroup terms).1 := by
  match terms with
  | [] => cases h
  | [term] => exact term.setConst_tree h
  | _ :: _ :: _ => cases h

/-- No term is read as a list. -/
theorem received_trees (terms : List Term) : received (Term.trees terms) = Term.trees terms := by
  rw [received_eq_self_iff]
  intro value hvalue
  match terms with
  | [term] =>
    obtain ⟨rfl, -⟩ := List.cons.inj hvalue
    cases term <;> rfl

/-- A group of arguments behind a name makes a procedure. -/
theorem arguments_of_group {terms : List Term} (h : ReadsFirst style terms) {tokens : List Token}
    (hspells : Spells (Term.first style terms) tokens) (hmark : Unmarked next rest)
    (context : Context) (base : Session) (passed : List Token) (name : Expression)
    (line line' : ℕ) :
    ∀ᶠ steps in Filter.atTop,
      arguments (descend steps) name context
          (base.between passed (⟨.punctuation, "(", line⟩ ::
            (tokens ++ ⟨.punctuation, ")", line'⟩ :: next :: rest))) =
        .ok (.procedure name (Term.trees terms) false)
          (base.between (⟨.punctuation, ")", line'⟩ ::
            (tokens.reverse ++ ⟨.punctuation, "(", line⟩ :: passed)) (next :: rest)) := by
  have hgroup := h base (⟨.punctuation, "(", line⟩ :: passed) tokens rest next line' hspells
  have hconst := setConst_argumentGroup terms
  rw [argumentGroup_eq] at hgroup hconst
  rw [← received_trees terms]
  exact procedure_of_group rfl (by simp) (by simpa using hgroup) hconst hmark name context

/-- A procedure reads up to the operations behind it, however its name is written. -/
theorem reads_procedure {callee : Term} {terms : List Term} {enclosed : Bool} {tokens : List Token}
    (hc : ReadsBody style callee) (ha : ReadsFirst style terms)
    (hspells : Spells (Style.parenthesized enclosed (callee.body style) ++
      .mark "(" :: (Term.first style terms ++ [.mark ")"])) tokens)
    (hbare : enclosed = false → style.encloses 25 callee = false)
    (hplain : context.primaryOnly = false) (hfloor : context.floor < 25)
    (hguard : context.stopsAtAssignment = true → style.guarded = true)
    (hmark : Unmarked next rest)
    (hmore : Reads (.operations (.procedure callee.tree (Term.trees terms) false) context.floor
      context) (base.between (tokens.reverse ++ passed) (next :: rest)) result s') :
    Reads (.expression context) (base.between passed (tokens ++ next :: rest)) result s' := by
  obtain ⟨front, back, hfront, hback, rfl⟩ := spells_append_iff.mp hspells
  obtain ⟨line, more, hargs, rfl⟩ := spells_mark_iff.mp hback
  obtain ⟨line', inside, hinside, rfl⟩ := spells_concat_mark_iff.mp hargs
  have hopen : Closes context 25 ⟨.punctuation, "(", line⟩
      (inside ++ ⟨.punctuation, ")", line'⟩ :: next :: rest) :=
    ⟨rfl, .inr ⟨.procOperator, rfl, .inr ⟨rfl, le_rfl⟩⟩⟩
  have harguments := arguments_of_group ha hinside hmark context base (front.reverse ++ passed)
    callee.tree line line'
  simp only [List.cons_append, List.append_assoc, List.reverse_append, List.reverse_cons,
    List.reverse_nil, List.nil_append] at hmore ⊢
  refine reads_parenthesized hc hfront hplain rfl (fun henclosed => ?_) ?_
  · obtain ⟨hlevel, hassign⟩ := Style.encloses_eq_false_iff.mp (hbare henclosed)
    exact ⟨⟨hplain, Term.clears_of_lt (hfloor.trans_le hlevel),
      fun hstops => ⟨hguard hstops, hassign (hguard hstops)⟩⟩, hopen.mono hlevel⟩
  · refine .of_rule ?_
    filter_upwards [harguments, hmore] with steps h₁ h₂
    show operationsRule (descend steps) callee.tree context.floor context _ = _
    refine (operationsRule_opening (.inr rfl) hfloor _ _ _).trans ?_
    simp [operation, Operator.symbol, h₁, h₂]

theorem readsBody_procedure {callee : Term} {terms : List Term} (hc : ReadsBody style callee)
    (ha : ReadsFirst style terms) : ReadsBody style (.procedure callee terms) := by
  intro base context passed tokens rest next result s' hspells hadmits hcloses hmore
  exact reads_procedure hc ha hspells id hadmits.plain hadmits.clears
    (fun hstops => (hadmits.guarded hstops).1) hcloses.unmarked hmore

theorem operatorOperand_controlTransfer (parse : Descent) (context : Context) (line : ℕ) :
    operatorOperand parse context (Operator.controlTransfer.token line) = (do
      match ← parse (.expression (context.operand 24)) with
      | .procedure name args constant => return .call name args constant
      | _ => reject .expectedProcedure line) := by
  rfl

/-- The sign `@` makes a call of the procedure behind it. The name of that procedure is not a bare
    call, as long as names are put in parentheses below the level of procedures. -/
theorem readsBody_call (hstyle : 25 ≤ style.calleeLevel) {callee : Term} {terms : List Term}
    (hc : ReadsBody style callee) (ha : ReadsFirst style terms) :
    ReadsBody style (.call callee terms) := by
  intro base context passed tokens rest next result s' hspells hadmits hcloses hmore
  obtain ⟨line, more, hprocedure, rfl⟩ := spells_operator_iff.mp hspells
  have hbare (henclosed : style.encloses style.calleeLevel callee = false) :
      style.encloses 25 callee = false := by
    rw [Style.encloses_eq_false_iff] at henclosed ⊢
    exact ⟨hstyle.trans henclosed.1, henclosed.2⟩
  have hread : Reads (.expression (context.operand 24))
      (base.between (Operator.controlTransfer.token line :: passed) (more ++ next :: rest))
      (.procedure callee.tree (Term.trees terms) false)
      (base.between (more.reverse ++ Operator.controlTransfer.token line :: passed)
        (next :: rest)) :=
    reads_procedure hc ha hprocedure hbare rfl (show 24 < 25 by decide)
      (fun hstops => (hadmits.guarded hstops).1) hcloses.unmarked
      (reads_operations_of_closes (hcloses.operand 24))
  simp only [List.cons_append, List.reverse_cons, List.append_assoc, List.nil_append] at hmore ⊢
  refine reads_of_operand (Operator.token_isKeyword_constexpr _ line)
    (Operator.token_kind_ne_eof _ line) (by simp) hadmits.plain
    (Term.setConst_tree (.call callee terms)) hcloses.unmarked ?_ hmore
  filter_upwards [hread] with steps hsteps
  show ((operatorOperand (descend steps) context (Operator.controlTransfer.token line)) >>=
    fun value => pure (value, false)) _ = _
  simp [operatorOperand_controlTransfer, hsteps, Term.tree]

/-! ## All terms -/

mutual

/-- Every term reads up to the operations behind it. -/
theorem readsBody (hstyle : 25 ≤ style.calleeLevel) : ∀ term : Term, ReadsBody style term
  | .name text => readsBody_name text
  | .literal kind text => readsBody_literal kind text
  | .unary op operand => readsBody_unary op (readsBody hstyle operand)
  | .binary op left right => readsBody_binary op (readsBody hstyle left) (readsBody hstyle right)
  | .indexed target index => readsBody_indexed (readsBody hstyle target) (readsBody hstyle index)
  | .procedure callee terms => readsBody_procedure (readsBody hstyle callee) (readsFirst hstyle terms)
  | .call callee terms => readsBody_call hstyle (readsBody hstyle callee) (readsFirst hstyle terms)

theorem readsFirst (hstyle : 25 ≤ style.calleeLevel) :
    ∀ terms : List Term, ReadsFirst style terms
  | [] => readsFirst_nil
  | term :: terms => readsFirst_cons (readsBody hstyle term) (readsFurther hstyle terms)

theorem readsFurther (hstyle : 25 ≤ style.calleeLevel) :
    ∀ terms : List Term, ReadsFurther style terms
  | [] => readsFurther_nil
  | term :: terms => readsFurther_cons (readsBody hstyle term) (readsFurther hstyle terms)

end

/-- The text of a term is read as its tree, up to a token that ends the expression. -/
theorem reads_print (hstyle : 25 ≤ style.calleeLevel) (term : Term) {tokens : List Token}
    (hspells : Spells (term.print style) tokens) (hplain : context.primaryOnly = false)
    (hfloor : context.floor = 0) (hguard : context.stopsAtAssignment = true → style.guarded = true)
    (hcloses : Closes context 0 next rest) :
    Reads (.expression context) (base.between passed (tokens ++ next :: rest)) term.tree
      (base.between (tokens.reverse ++ passed) (next :: rest)) := by
  refine reads_parenthesized (readsBody hstyle term) hspells hplain hcloses.unmarked
    (fun hbare => ?_) (reads_operations_of_closes (by rw [hfloor]; exact hcloses))
  obtain ⟨-, hassign⟩ := Style.encloses_eq_false_iff.mp hbare
  exact ⟨⟨hplain, by rw [hfloor]; exact term.clears_zero,
    fun hstops => ⟨hguard hstops, hassign (hguard hstops)⟩⟩, hcloses.mono (Nat.zero_le _)⟩

/-- A goal that is read somehow is read by the parsers for whole trees. -/
theorem Reads.full {α : Type} {goal : Goal α} {session later : Session} {a : α}
    (hs : session.Tidy) (hready : 0 < session.past + session.left)
    (h : Reads goal session a later) : full goal session = .ok a later := by
  obtain ⟨steps, hsteps, hrank⟩ :=
    (h.and (Filter.eventually_ge_atTop (goal.rank session.left))).exists
  rw [full_eq_descend goal hs hready hrank, hsteps]

/-- A printed expression in front of a semicolon is read back, and the semicolon is left. -/
theorem expression_print (term : Term) {tokens rest : List Token} {semicolon : Token}
    {session : Session} (hs : session.Tidy) (hspells : Spells (term.print {}) tokens)
    (hsemicolon : semicolon.isPunctuation ";" = true)
    (hahead : session.cursor.ahead = tokens ++ semicolon :: rest) :
    Parser.expression {} session = .ok term.tree
      { session with cursor := ⟨tokens.reverse ++ session.cursor.passed, semicolon, rest⟩ } := by
  have hcloses : Closes {} 0 semicolon rest := by
    have hkind := kind_of_isPunctuation hsemicolon
    refine ⟨?_, .inl (by simp [endsExpression, hsemicolon])⟩
    simp [Unmarked, Token.isOperator, Token.hasForm, hkind]
  have hread : Reads (.expression {})
      (session.between session.cursor.passed (tokens ++ semicolon :: rest)) term.tree
      (session.between (tokens.reverse ++ session.cursor.passed) (semicolon :: rest)) :=
    reads_print le_rfl term hspells rfl rfl (fun h => by cases h) hcloses
  rw [← hahead, Session.between_self] at hread
  have hready : 0 < session.past + session.left := by
    obtain ⟨first, more, rfl, heof, -, -⟩ := (beginsOperand_place {} 0 term).spells hspells
    have : 0 < session.left := by
      rw [Session.left_pos_iff, (List.cons.inj hahead).1]
      exact heof
    omega
  exact hread.full hs hready

/-- The text `a * (b + @f(c, 1))` is read back. -/
theorem expression_print_product :
    Parser.expression {} (Session.ofTokens
      [⟨.identifier, "a", 1⟩, ⟨.operator, "*", 1⟩, ⟨.punctuation, "(", 1⟩, ⟨.identifier, "b", 1⟩,
        ⟨.operator, "+", 1⟩, ⟨.operator, "@", 1⟩, ⟨.identifier, "f", 1⟩, ⟨.punctuation, "(", 1⟩,
        ⟨.identifier, "c", 1⟩, ⟨.punctuation, ",", 1⟩, ⟨.int, "1", 1⟩, ⟨.punctuation, ")", 1⟩,
        ⟨.punctuation, ")", 1⟩, ⟨.punctuation, ";", 1⟩]) =
      .ok (.binary .mult (.identifier "a" false)
          (.binary .plus (.identifier "b" false)
            (.call (.identifier "f" false) [.identifier "c" false, .ofLiteral .int "1"] false)
            false)
          false)
        { cursor :=
            ⟨[⟨.punctuation, ")", 1⟩, ⟨.punctuation, ")", 1⟩, ⟨.int, "1", 1⟩,
              ⟨.punctuation, ",", 1⟩, ⟨.identifier, "c", 1⟩, ⟨.punctuation, "(", 1⟩,
              ⟨.identifier, "f", 1⟩, ⟨.operator, "@", 1⟩, ⟨.operator, "+", 1⟩,
              ⟨.identifier, "b", 1⟩, ⟨.punctuation, "(", 1⟩, ⟨.operator, "*", 1⟩,
              ⟨.identifier, "a", 1⟩],
              ⟨.punctuation, ";", 1⟩, [Token.eof 1]⟩ } := by
  let term : Term := .binary ⟨.mult, by decide⟩ (.name "a")
    (.binary ⟨.plus, by decide⟩ (.name "b") (.call (.name "f") [.name "c", .literal .int "1"]))
  let tokens : List Token :=
    [⟨.identifier, "a", 1⟩, ⟨.operator, "*", 1⟩, ⟨.punctuation, "(", 1⟩, ⟨.identifier, "b", 1⟩,
      ⟨.operator, "+", 1⟩, ⟨.operator, "@", 1⟩, ⟨.identifier, "f", 1⟩, ⟨.punctuation, "(", 1⟩,
      ⟨.identifier, "c", 1⟩, ⟨.punctuation, ",", 1⟩, ⟨.int, "1", 1⟩, ⟨.punctuation, ")", 1⟩,
      ⟨.punctuation, ")", 1⟩]
  have hspells : Spells (term.print {}) tokens := by
    rw [show tokens = (term.print {}).map (Pattern.token 1) by decide +kernel]
    exact spells_token 1 _
  exact expression_print term (Session.tidy_ofTokens _) hspells rfl rfl

/-- Where only names below the level of calls are put in parentheses, a call of a call is printed
    as `@@f()()`, and that is not read. -/
theorem not_expression_print_callee :
    ¬ ∀ (term : Term) (tokens rest : List Token) (semicolon : Token) (session : Session),
      session.Tidy → Spells (term.print { calleeLevel := 24 }) tokens →
      semicolon.isPunctuation ";" = true → session.cursor.ahead = tokens ++ semicolon :: rest →
      Parser.expression {} session = .ok term.tree
        { session with
          cursor := ⟨tokens.reverse ++ session.cursor.passed, semicolon, rest⟩ } := by
  intro h
  obtain ⟨tokens, htokens⟩ : ∃ tokens : List Token, tokens =
      [⟨.operator, "@", 1⟩, ⟨.operator, "@", 1⟩, ⟨.identifier, "f", 1⟩, ⟨.punctuation, "(", 1⟩,
        ⟨.punctuation, ")", 1⟩, ⟨.punctuation, "(", 1⟩, ⟨.punctuation, ")", 1⟩] := ⟨_, rfl⟩
  have hspells : Spells (Term.print { calleeLevel := 24 } (.call (.call (.name "f") []) []))
      tokens := by
    rw [show tokens = (Term.print { calleeLevel := 24 } (.call (.call (.name "f") []) [])).map
      (Pattern.token 1) by rw [htokens]; decide +kernel]
    exact spells_token 1 _
  have hread := h _ tokens [Token.eof 1] ⟨.punctuation, ";", 1⟩
    (Session.ofTokens (tokens ++ [⟨.punctuation, ";", 1⟩])) (Session.tidy_ofTokens _) hspells rfl
    (by rw [htokens]; rfl)
  have hfails : (match Parser.expression {}
      (Session.ofTokens (tokens ++ [⟨.punctuation, ";", 1⟩])) with
      | .error (.rejected error) _ => error == ⟨.expectedProcedure, 1⟩
      | _ => false) = true := by
    rw [htokens]
    decide +kernel
  rw [hread] at hfails
  cases hfails

end Parser

end SinFrontend
