import SinFrontend.Proofs.Descent

/-!
# Operands that must follow

Behind an operator, a punctuation mark and the word `constexpr` an operand is asked for, and no such
token is an operand by itself. So nothing is read for an operand at the end of input, although the
token before it is handed out there once more.

* `descend_typeName_demandsOperand`: none of these tokens begins a type.
* `operand_of_demandsOperand`: none of them is an operand, unless it opens one.
* `descend_expression_atEnd`: no expression is read behind them at the end of input.
-/

namespace SinFrontend

/-- Whether an operand is asked for behind a token: behind an operator, a punctuation mark, and the
    words of operators and `constexpr`. -/
def Token.demandsOperand (token : Token) : Bool :=
  match token.kind with
  | .operator | .punctuation => true
  | .keyword => token.text == "constexpr" || Operator.isSymbol token.text
  | _ => false

/-- The operator of a spelling is spelled so. -/
theorem Operator.symbol_of_ofSymbol? {text : String} {op : Operator}
    (h : Operator.ofSymbol? text = some op) : op.symbol = text := by
  simpa using List.find?_some h

/-- A token that spells an operator is one, or a punctuation mark or a reserved word. -/
theorem Token.ofSymbol?_of_operator? {token : Token} {op : Operator}
    (h : token.operator? = some op) :
    (token.kind = .operator ∨ token.kind = .punctuation ∨ token.kind = .keyword) ∧
      Operator.ofSymbol? token.text = some op := by
  unfold Token.operator? at h
  cases hkind : token.kind <;> simp_all

theorem Token.kind_of_operator? {token : Token} {op : Operator} (h : token.operator? = some op) :
    token.kind ≠ .eof := by
  rcases (Token.ofSymbol?_of_operator? h).1 with hkind | hkind | hkind <;> simp [hkind]

theorem Token.demandsOperand_of_operator? {token : Token} {op : Operator}
    (h : token.operator? = some op) : token.demandsOperand = true := by
  obtain ⟨hkind, hspelled⟩ := Token.ofSymbol?_of_operator? h
  rcases hkind with hkind | hkind | hkind <;>
    simp [Token.demandsOperand, hkind, Operator.isSymbol, hspelled]

/-- The words behind which an operand is asked for mean nothing else. -/
theorem Token.demandsOperand_word {token : Token} (hkind : token.kind = .keyword)
    (h : token.demandsOperand = true) :
    Quality.ofWord? token.text = none ∧ Attribute.ofWord? token.text = none ∧
      token.text ≠ "construct" ∧ PrimaryKind.isTypeKeyword token.text = false := by
  have hall : ∀ word ∈ "constexpr" :: Operator.spelled.map Operator.symbol,
      Quality.ofWord? word = none ∧ Attribute.ofWord? word = none ∧ word ≠ "construct" ∧
        PrimaryKind.isTypeKeyword word = false := by
    decide +kernel
  refine hall _ ?_
  simp only [Token.demandsOperand, hkind, Bool.or_eq_true, beq_iff_eq] at h
  rcases h with h | h
  · rw [h]
    exact List.mem_cons_self
  · obtain ⟨op, hop⟩ := Option.isSome_iff_exists.mp h
    rw [← Operator.symbol_of_ofSymbol? hop]
    exact List.mem_cons_of_mem _ (List.mem_map_of_mem (List.mem_of_find?_eq_some hop))

namespace Parser

variable {s later : Session}

/-! ## Types -/

/-- Where qualities are read, the first token is the word of one. -/
theorem qualitiesWhile_ok {test : Token → Bool} {qualities : QualitySet} (hs : s.Ready)
    (hkind : s.cursor.current.kind ≠ .eof) (htest : test s.cursor.current = true)
    (h : qualitiesWhile test s = .ok qualities later) :
    s.Forward 1 later ∧ (Quality.ofWord? s.cursor.current.text).isSome = true := by
  have hrun : qualitiesWhile test s = (s.cursor.ahead.takeWhile test).foldlM
    (fun qualities _ => addQuality qualities) QualitySet.empty s := rfl
  rw [hrun, Cursor.ahead, List.takeWhile_cons, htest, if_pos rfl, List.foldlM_cons] at h
  obtain ⟨first, middle, hfirst, hmore⟩ := exists_of_bind h
  obtain ⟨quality, hword, -, rfl⟩ := addQuality_ok hfirst
  rw [hs.tidy.advance_previous hkind] at hword
  have hfwd : s.Forward 1 (s.on .advance) := .advance hs.tidy hkind
  have hready : (s.on .advance).Ready := hs.forward hfwd rfl
  have hmore := (addQualities_proceed Session.frame_eq _ hready _).forward hmore
  exact ⟨hfwd.trans hmore, by simp [hword]⟩

/-- No type begins with a word behind which an operand is asked for. -/
theorem descend_typeName_demandsOperand {type : DataType} (steps : ℕ) (hs : s.Ready)
    (hkind : s.cursor.current.kind = .keyword)
    (hdemands : s.cursor.current.demandsOperand = true) :
    descend steps .typeName s ≠ .ok type later := by
  intro h
  obtain ⟨hquality, -, -, htype⟩ := Token.demandsOperand_word hkind hdemands
  cases steps with
  | zero => cases h
  | succ steps =>
    change typeNameRule (descend steps) s = .ok type later at h
    unfold typeNameRule at h
    obtain ⟨line, _, ⟨⟩, h⟩ := exists_of_bind h
    obtain ⟨qualities, middle, hqualities, h⟩ := exists_of_bind h
    have hsome := (qualitiesWhile_ok hs (by simp [hkind]) (by simp [hkind, htype]) hqualities).2
    rw [hquality] at hsome
    cases hsome

/-! ## Operands -/

/-- A token behind which an operand is asked for is no operand, unless it opens one. -/
theorem operand_of_demandsOperand {steps : ℕ} {context : Context} {result : Expression × Bool}
    (hs : s.Ready) (hpast : 0 < s.past) (hdemands : s.cursor.previous.demandsOperand = true)
    (hopens : s.cursor.previous.opensOperand = false) :
    operand (descend steps) context s.cursor.previous s ≠ .ok result later := by
  intro h
  unfold operand at h
  cases hkind : s.cursor.previous.kind with
  | keyword =>
    obtain ⟨-, hattribute, hconstruct, -⟩ := Token.demandsOperand_word hkind hdemands
    simp only [Token.opensOperand, hkind] at hopens
    simp only [hkind, keywordOperand, hopens, hattribute, beq_iff_eq, hconstruct,
      Bool.false_eq_true, if_false] at h
    obtain ⟨operand, middle, h, -⟩ := exists_of_bind h
    rw [bind_run, retreat_run] at h
    obtain ⟨type, s₁, htype, -⟩ := exists_of_bind h
    have hcurrent := Session.on_retreat_current hpast
    obtain ⟨htidy, hpast', hleft⟩ := hs.tidy.retreat hpast
    have hready : (s.on .retreat).Ready := ⟨rfl, htidy, by omega⟩
    exact descend_typeName_demandsOperand steps hready (hcurrent ▸ hkind) (hcurrent ▸ hdemands)
      (run_of_explaining htype)
  | operator =>
    simp only [Token.opensOperand, hkind, Bool.or_eq_false_iff, beq_eq_false_iff_ne,
      Option.isSome_eq_false_iff, Option.isNone_iff_eq_none] at hopens
    simp [hkind, operatorOperand, hopens] at h
  | punctuation =>
    simp only [Token.opensOperand, hkind, Option.isSome_eq_false_iff,
      Option.isNone_iff_eq_none] at hopens
    simp [hkind, hopens] at h
  | _ => simp [Token.demandsOperand, hkind] at hdemands

/-- At the end of input no expression is read behind a token that asks for an operand. -/
theorem descend_expression_atEnd {steps : ℕ} {context : Context} {e : Expression} (hs : s.Ready)
    (hend : s.cursor.current.kind = .eof) (hdemands : s.cursor.previous.demandsOperand = true) :
    descend steps (.expression context) s ≠ .ok e later := by
  intro h
  have hatEnd : s.atEnd = true := by simp [Session.atEnd, Cursor.atEnd, hend]
  cases hopens : s.cursor.previous.opensOperand with
  | true =>
    rw [descend_expression_unfinished hatEnd hopens] at h
    cases h
  | false =>
    have hleft : s.left = 0 := Session.left_eq_zero_iff.mpr hatEnd
    have hpast : 0 < s.past := by
      have := hs.ready
      omega
    have hword : s.cursor.current.isKeyword "constexpr" = false := hasForm_eof hend (by decide)
    cases steps with
    | zero => cases h
    | succ steps =>
      change expressionRule (descend steps) context s = .ok e later at h
      unfold expressionRule at h
      rw [bind_run, takeKeyword_run, hword, if_neg Bool.false_ne_true] at h
      dsimp only at h
      rw [bind_run, advance_run, Session.on_advance_of_atEnd hatEnd] at h
      obtain ⟨operand, s₁, hoperand, -⟩ := exists_of_bind h
      exact operand_of_demandsOperand hs hpast hdemands hopens hoperand

end Parser

end SinFrontend
