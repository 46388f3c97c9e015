import SinFrontend.Proofs.Wording.Demands
import SinFrontend.Proofs.Wording.Runs

/-!
# Expressions have the words of their tokens

An expression that is read contains exactly the words of the tokens that were read for it, in their
order: no operand and no operator is lost, duplicated or moved.

* `Faithful`: what it means for a way to read goals to keep all words.
* one lemma for each rule, which keeps all words if what it asks for is read faithfully.
* `faithful_descend`: so the descent is faithful in any number of steps.
* `yield_of_expression`: every expression that is read has the words of its tokens.
-/

namespace SinFrontend

/-! ## Symbols of groups and operators -/

theorem Grouping.closing_mem (opened : Grouping) : opened.closing ∈ groupingSymbols := by
  cases opened <;> decide

theorem Grouping.mem_of_ofOpening? {text : String} {opened : Grouping}
    (h : Grouping.ofOpening? text = some opened) : text ∈ groupingSymbols := by
  obtain rfl : opened.opening = text := by simpa using List.find?_some h
  cases opened <;> decide

theorem Attribute.word_of_ofWord? {text : String} {attr : Attribute}
    (h : Attribute.ofWord? text = some attr) : attr.word = text := by
  simpa using List.find?_some h

/-- A prefix operator is spelled like its infix form. -/
theorem Operator.symbol_of_toUnary? {op form : Operator} (h : op.toUnary? = some form) :
    form.symbol = op.symbol := by
  cases op <;> cases h <;> rfl

/-- Apart from the two that open a group, the symbols of operators group nothing. -/
theorem Operator.symbol_not_mem_groupingSymbols {op : Operator} (hindex : op ≠ .index)
    (hproc : op ≠ .procOperator) :
    op.symbol ∉ groupingSymbols ∧ op.symbol ≠ "constexpr" := by
  cases op <;> first | contradiction | decide

/-- The words of a token that spells an operator. -/
theorem Token.words_of_ofSymbol? {token : Token} {op : Operator}
    (h : Operator.ofSymbol? token.text = some op) (hindex : op ≠ .index)
    (hproc : op ≠ .procOperator)
    (hkind : token.kind = .operator ∨ token.kind = .punctuation ∨ token.kind = .keyword) :
    token.words = [.symbol op.symbol] := by
  obtain ⟨hgroups, hword⟩ := Operator.symbol_not_mem_groupingSymbols hindex hproc
  rw [Operator.symbol_of_ofSymbol? h] at hgroups hword ⊢
  rcases hkind with hkind | hkind | hkind <;> simp [Token.words, hkind, hgroups, hword]

/-- An admitted reserved word begins an operand, or asks for one. -/
theorem Token.Admitted.word {token : Token} (h : token.Admitted) (hkind : token.kind = .keyword) :
    (token.text = Operator.not.symbol ∨ (Attribute.ofWord? token.text).isSome = true) ∨
      token.demandsOperand = true ∧ token.opensOperand = false := by
  have hall : ∀ word ∈ expressionWords,
      (word = Operator.not.symbol ∨ (Attribute.ofWord? word).isSome = true) ∨
        (word == "constexpr" || Operator.isSymbol word) = true ∧
          (word == Operator.not.symbol) = false := by
    decide
  simpa only [Token.demandsOperand, Token.opensOperand, hkind] using hall _ (h hkind)

namespace Parser

variable {s middle later : Session} {context : Context} {token : Token} {e : Expression}

/-- Goals are read without losing, doubling or moving a word. Operations add the words behind the
    left operand to those of the operand. -/
structure Faithful (parse : Descent) : Prop where
  agree : ∀ bound, AgreeBelow (· = ·) bound parse parse
  /-- A token that asks for an operand is none, unless it opens one. -/
  operand : ∀ {s later context result}, s.Ready → 0 < s.past →
    s.cursor.previous.demandsOperand = true → s.cursor.previous.opensOperand = false →
    operand parse context s.cursor.previous s ≠ .ok result later
  /-- At the end of input, an expression is asked for only behind a token that asks for one. -/
  expression : ∀ {context s e later}, s.Ready →
    (s.cursor.current.kind = .eof → s.cursor.previous.demandsOperand = true) →
    parse (.expression context) s = .ok e later → s.Forward 1 later ∧ s.Tells later e.yield
  operations : ∀ {left floor context s e later}, s.Ready →
    parse (.operations left floor context) s = .ok e later →
    ∃ words, s.Tells later words ∧ e.yield = left.yield ++ words
  elements : ∀ {context s es later}, s.Ready → parse (.elements context) s = .ok es later →
    s.Tells later (Expression.yields es)

variable {parse : Descent} (hp : Faithful parse)

/-! ## Symbols of groups -/

theorem expectPunctuation_tells {symbol text : String} (hs : s.Ready)
    (hsymbol : symbol ∈ groupingSymbols)
    (h : expectPunctuation symbol text s = .ok () later) : s.Tells later [] := by
  obtain ⟨hform, rfl⟩ := expectPunctuation_ok h
  exact .grouping hs.tidy hform hsymbol

include hp

theorem elementsRule_tells {es : List Expression} (hs : s.Ready)
    (h : elementsRule parse context s = .ok es later) : s.Tells later (Expression.yields es) := by
  unfold elementsRule at h
  rw [bind_run, takePunctuation_run] at h
  cases hcomma : s.cursor.current.isPunctuation "," with
  | false =>
    obtain ⟨rfl, rfl⟩ : [] = es ∧ s = later := by simpa [hcomma] using h
    exact .refl hs.tidy
  | true =>
    simp only [hcomma, if_true] at h
    have hkind := kind_of_isPunctuation hcomma
    have hread : s.Tells (s.on .advance) [] := .grouping hs.tidy hcomma (by decide)
    have hprevious := hs.tidy.advance_previous (by simp [hkind])
    obtain ⟨element, s₁, helement, h⟩ := exists_of_bind h
    obtain ⟨-, htold⟩ := hp.expression (hread.ready hs)
      (fun _ => by simp [hprevious, Token.demandsOperand, hkind]) helement
    obtain ⟨elements, s₂, helements, h⟩ := exists_of_bind h
    have htold' := hp.elements (htold.ready (hread.ready hs)) helements
    injection h with h₁ h₂
    subst h₁ h₂
    exact hread.trans (htold.trans htold')

theorem group_tells {opened : Grouping} {isList : Bool} (hs : s.Ready)
    (hdemands : s.cursor.previous.demandsOperand = true)
    (h : group parse opened s = .ok (e, isList) later) : s.Tells later e.yield := by
  have hclose {last : Session} (hlast : last.Ready)
      (hcloses : last.cursor.current.isPunctuation opened.closing = true) :
      last.Tells (last.on .advance) [] := .grouping hlast.tidy hcloses opened.closing_mem
  cases groupRead_of_ok h with
  | empty kind hcloses => exact hclose hs hcloses
  | single hfirst hcloses =>
    have htold := (hp.expression hs (fun _ => hdemands) hfirst).2
    simpa using htold.trans (hclose (htold.ready hs) hcloses)
  | list kind hfirst hcomma helements hcloses =>
    have htold := (hp.expression hs (fun _ => hdemands) hfirst).2
    have hs₁ := htold.ready hs
    have htold' := hp.elements hs₁ helements
    simpa [Expression.yield, Expression.yields] using
      htold.trans (htold'.trans (hclose (htold'.ready hs₁) hcloses))

/-! ## Operands -/

theorem unary_tells {op : Operator} (hs : s.Ready)
    (hdemands : s.cursor.previous.demandsOperand = true)
    (h : unary parse context op s = .ok e later) :
    ∃ words, s.Tells later words ∧ e.yield = .symbol op.symbol :: words := by
  unfold unary at h
  obtain ⟨operand, s₁, hoperand, h⟩ := exists_of_bind h
  injection h with h₁ h₂
  subst h₁ h₂
  exact ⟨operand.yield, (hp.expression hs (fun _ => hdemands) hoperand).2, rfl⟩

theorem operatorOperand_tells (hs : s.Ready) (hprevious : s.cursor.previous = token)
    (hkind : token.kind = .operator)
    (h : operatorOperand parse context token s = .ok e later) :
    ∃ words, s.Tells later words ∧ e.yield = token.words ++ words := by
  have hdemands : s.cursor.previous.demandsOperand = true := by
    simp [hprevious, Token.demandsOperand, hkind]
  unfold operatorOperand at h
  rw [ite_run] at h
  split at h
  next hcall =>
    have htext : token.text = "@" := beq_iff_eq.mp hcall
    obtain ⟨target, s₁, htarget, h⟩ := exists_of_bind h
    have htold := (hp.expression hs (fun _ => hdemands) htarget).2
    cases target with
    | procedure name args constant =>
      injection h with h₁ h₂
      subst h₁ h₂
      refine ⟨_, htold, ?_⟩
      simp [Expression.yield, Token.words, hkind, htext, groupingSymbols]
    | _ => cases h
  next =>
    cases hform : (Operator.ofSymbol? token.text).bind Operator.toUnary? with
    | none =>
      rw [hform] at h
      cases h
    | some form =>
      rw [hform] at h
      obtain ⟨op, hop, hunary⟩ := Option.bind_eq_some_iff.mp hform
      obtain ⟨words, htold, hyield⟩ := unary_tells hp hs hdemands h
      refine ⟨words, htold, ?_⟩
      rw [hyield, Operator.symbol_of_toUnary? hunary, Token.words_of_ofSymbol? hop _ _ (.inl hkind)]
      · rfl
      all_goals
        rintro rfl
        cases hunary

/-- The operand of an admitted reserved word: `not` with its operand, or an attribute. -/
theorem keywordOperand_tells (hs : s.Ready) (hprevious : s.cursor.previous = token)
    (hkind : token.kind = .keyword)
    (hword : token.text = Operator.not.symbol ∨ (Attribute.ofWord? token.text).isSome = true)
    (h : keywordOperand parse context token s = .ok e later) :
    ∃ words, s.Tells later words ∧ e.yield = token.words ++ words := by
  unfold keywordOperand at h
  rw [ite_run] at h
  split at h
  next hnot =>
    have htext : token.text = "not" := beq_iff_eq.mp hnot
    have hdemands : s.cursor.previous.demandsOperand = true := by
      rw [hprevious, Token.demandsOperand, hkind, htext]
      decide
    obtain ⟨words, htold, hyield⟩ := unary_tells hp hs hdemands h
    refine ⟨words, htold, ?_⟩
    rw [hyield]
    simp [Token.words, hkind, htext, Operator.symbol]
  next hnot =>
    obtain ⟨attr, hattr⟩ := Option.isSome_iff_exists.mp (hword.resolve_left (by simpa using hnot))
    rw [hattr] at h
    injection h with h₁ h₂
    subst h₁ h₂
    have htext := Attribute.word_of_ofWord? hattr
    have hconstexpr : attr.word ≠ "constexpr" := by cases attr <;> decide
    refine ⟨[], .refl hs.tidy, ?_⟩
    simp [Expression.yield, Token.words, hkind, ← htext, hconstexpr]

/-- No operand begins with the sign `&`. -/
theorem not_isOperator_of_operand {read : Expression × Bool} (hs : s.Ready) (hpast : 0 < s.past)
    (h : operand parse context s.cursor.previous s = .ok read later) :
    s.cursor.previous.isOperator "&" = false := by
  cases hform : s.cursor.previous.isOperator "&" with
  | false => rfl
  | true =>
    have hkind := kind_of_isOperator hform
    have htext : s.cursor.previous.text = "&" := by
      simpa [Token.isOperator, Token.hasForm, hkind] using hform
    refine absurd h (hp.operand hs hpast ?_ ?_)
    · simp [Token.demandsOperand, hkind]
    · rw [Token.opensOperand, hkind, htext]
      decide

/-- The words of an operand are those of its first token and of what is read behind it. -/
theorem operand_tells {isList : Bool} (hs : s.Ready) (hpast : 0 < s.past)
    (hprevious : s.cursor.previous = token) (hadmitted : token.Admitted)
    (h : operand parse context token s = .ok (e, isList) later) :
    (∃ words, s.Tells later words ∧ e.yield = token.words ++ words) ∧
      token.isOperator "&" = false := by
  refine ⟨?_, hprevious ▸ not_isOperator_of_operand hp hs hpast (hprevious ▸ h)⟩
  have hrun := h
  unfold operand at h
  cases hkind : token.kind with
  | eof =>
    simp only [hkind] at h
    cases h
  | keyword =>
    rcases hadmitted.word hkind with hword | ⟨hdemands, hopens⟩
    · simp only [hkind] at h
      obtain ⟨operand, s₁, hoperand, h⟩ := exists_of_bind h
      cases h
      exact keywordOperand_tells hp hs hprevious hkind hword hoperand
    · subst hprevious
      exact absurd hrun (hp.operand hs hpast hdemands hopens)
  | operator =>
    simp only [hkind] at h
    obtain ⟨operand, s₁, hoperand, h⟩ := exists_of_bind h
    cases h
    exact operatorOperand_tells hp hs hprevious hkind hoperand
  | punctuation =>
    simp only [hkind] at h
    cases hopened : Grouping.ofOpening? token.text with
    | none =>
      rw [hopened] at h
      cases h
    | some opened =>
      rw [hopened] at h
      have hdemands : s.cursor.previous.demandsOperand = true := by
        simp [hprevious, Token.demandsOperand, hkind]
      refine ⟨e.yield, group_tells hp hs hdemands h, ?_⟩
      simp [Token.words, hkind, Grouping.mem_of_ofOpening? hopened]
  | _ =>
    simp only [hkind] at h
    cases h
    refine ⟨[], .refl hs.tidy, ?_⟩
    rw [List.append_nil, Token.words, hkind]
    rfl

/-! ## Marks behind an operand -/

omit hp in
theorem overrideQualities_ok {operand : Expression} (hs : s.Ready)
    (h : overrideQualities operand s = .ok e later) :
    s.Forward 1 later ∧ ¬ s.cursor.current.Admitted ∧ e.yield = operand.yield := by
  unfold overrideQualities at h
  obtain ⟨line, _, ⟨⟩, h⟩ := exists_of_bind h
  obtain ⟨qualities, s₁, hqualities, h⟩ := exists_of_bind h
  replace hqualities := run_of_explaining hqualities
  unfold postfixedQualities at hqualities
  rw [bind_run, peek_run] at hqualities
  cases hkind : s.cursor.current.kind == .keyword with
  | false =>
    simp only [hkind] at hqualities
    cases hqualities
  | true =>
    simp only [hkind, if_true] at hqualities
    replace hkind : s.cursor.current.kind = .keyword := beq_iff_eq.mp hkind
    obtain ⟨hfwd, hquality⟩ := qualitiesWhile_ok hs (by simp [hkind]) (by simp [hkind]) hqualities
    have hadmitted : ¬ s.cursor.current.Admitted := fun hadmitted => by
      have hnone : ∀ word ∈ expressionWords, Quality.ofWord? word = none := by decide
      rw [hnone _ (hadmitted hkind)] at hquality
      cases hquality
    have hyield := operand.yield_overrideQualities qualities
    generalize operand.overrideQualities qualities = layered at h hyield
    obtain ⟨layered, refused⟩ := layered
    cases refused with
    | none =>
      injection h with h₁ h₂
      subst h₁ h₂
      exact ⟨hfwd, hadmitted, hyield⟩
    | some error => cases error <;> cases h

omit hp in
/-- The mark behind an operand has no words. Qualities are reserved words that are not admitted. -/
theorem markedOperand_tells {operand : Expression} {marked : Bool} (hs : s.Ready)
    (h : markedOperand operand s = .ok (e, marked) later) :
    s.Tells later [] ∧ e.yield = operand.yield := by
  unfold markedOperand at h
  obtain ⟨_, _, ⟨⟩, h⟩ := exists_of_bind h
  rw [ite_run] at h
  split at h
  next hmark =>
    have hsign := (Bool.and_eq_true_iff.mp hmark).1
    have hkind : s.cursor.current.kind ≠ .eof := by simp [kind_of_isOperator hsign]
    have hfwd := Session.Forward.advance hs.tidy hkind
    rw [bind_run, move_run] at h
    simp only [bind_run, takeKeyword_run] at h
    cases hword : (s.on .advance).cursor.current.isKeyword "constexpr" with
    | true =>
      simp only [hword, if_true] at h
      cases h
      exact ⟨.mark hs.tidy hsign hword, rfl⟩
    | false =>
      simp only [hword] at h
      obtain ⟨layered, s₁, hlayered, h⟩ := exists_of_bind h
      cases h
      obtain ⟨hmore, hadmitted, hyield⟩ := overrideQualities_ok (hs.forward hfwd rfl) hlayered
      refine ⟨⟨(hfwd.trans hmore).weaken (Nat.zero_le _), .inl ?_⟩, hyield⟩
      exact .of_passes (.advance hs.tidy hkind) (Session.spoiled_of_current hadmitted hmore.past_le)
  next =>
    cases h
    exact ⟨.refl hs.tidy, rfl⟩

/-- Behind an operand come its mark and its operations. -/
theorem continueOperand_tells {marked isList : Bool} {operand : Expression} (hs : s.Ready)
    (h : continueOperand parse context marked (operand, isList) s = .ok e later) :
    ∃ words, s.Tells later words ∧ e.yield = operand.yield ++ words := by
  unfold continueOperand at h
  obtain ⟨⟨layered, markedBehind⟩, s₁, hlayered, h⟩ := exists_of_bind h
  obtain ⟨hmark, hyield⟩ := markedOperand_tells hs hlayered
  have hs₁ := hmark.ready hs
  dsimp only at h
  have hconst : (if (marked || markedBehind || layered.isLiteral) = true then layered.setConst true
      else layered).yield = operand.yield := by
    rw [← hyield]
    split
    · exact layered.yield_setConst true
    · rfl
  generalize (if (marked || markedBehind || layered.isLiteral) = true then layered.setConst true
    else layered) = target at h hconst
  have hends : (target = e ∧ s₁ = later) ∨
      parse (.operations target context.floor context) s₁ = .ok e later := by
    rw [ite_run] at h
    split at h
    · exact .inl (by simpa using h)
    · obtain ⟨assigned, _, ⟨⟩, h⟩ := exists_of_bind h
      rw [ite_run] at h
      split at h
      · exact .inl (by simpa using h)
      · exact .inr h
  rcases hends with ⟨rfl, rfl⟩ | h
  · exact ⟨[], hmark, by rw [hconst, List.append_nil]⟩
  · obtain ⟨words, htold, hwords⟩ := hp.operations hs₁ h
    exact ⟨words, hmark.trans htold, by rw [hwords, hconst]⟩

/-! ## Expressions -/

/-- An operand with what is behind it. The token that is not admitted is passed over, whatever is
    read from it on. -/
theorem operandFrom_tells {marked : Bool} (hs : s.Ready) (hkind : s.cursor.current.kind ≠ .eof)
    (h : (do continueOperand parse context marked (← operand parse context (← advance))) s =
      .ok e later) :
    s.Tells later e.yield := by
  have hfwd : s.Forward (min 1 s.left) later :=
    (operandFrom_proceed Session.frame_eq (hp.agree (3 * s.left + 7)) hs context marked
      (by omega)).forward h
  have hleft : 0 < s.left := Session.left_pos_iff.mpr hkind
  by_cases hadmitted : s.cursor.current.Admitted
  · have hprevious := hs.tidy.advance_previous hkind
    rw [bind_run, advance_run, hprevious] at h
    have hread := Session.Forward.advance hs.tidy hkind
    have hs₁ : (s.on .advance).Ready := hs.forward hread rfl
    have hpast : 0 < (s.on .advance).past := hs.past_pos (.advance_min hs.tidy)
    obtain ⟨⟨operand, isList⟩, s₁, hoperand, h⟩ := exists_of_bind h
    obtain ⟨⟨words, htold, hyield⟩, hsign⟩ :=
      operand_tells hp hs₁ hpast hprevious hadmitted hoperand
    obtain ⟨words', htold', hyield'⟩ := continueOperand_tells hp (htold.ready hs₁) h
    rw [hyield', hyield, List.append_assoc]
    exact (Session.Tells.advance hs.tidy hkind hsign).trans (htold.trans htold')
  · refine ⟨hfwd.weaken (Nat.zero_le _), .inl (Session.spoiled_of_current hadmitted ?_)⟩
    have := hfwd.past_le
    omega

/-- At the end of input the word `constexpr` is handed out again, and it is no operand. -/
theorem operandFrom_atEnd {marked : Bool} (hs : s.Ready) (hpast : 0 < s.past)
    (hend : s.cursor.current.kind = .eof) (hkind : s.cursor.previous.kind = .keyword)
    (htext : s.cursor.previous.text = "constexpr") :
    (do continueOperand parse context marked (← operand parse context (← advance))) s ≠
      .ok e later := by
  intro h
  have hatEnd : s.atEnd = true := by simp [Session.atEnd, Cursor.atEnd, hend]
  rw [bind_run, advance_run, Session.on_advance_of_atEnd hatEnd] at h
  obtain ⟨operand, s₁, hoperand, -⟩ := exists_of_bind h
  refine hp.operand hs hpast ?_ ?_ hoperand
  · rw [Token.demandsOperand, hkind, htext]
    decide
  · rw [Token.opensOperand, hkind, htext]
    decide

theorem expressionRule_tells (hs : s.Ready) (hkind : s.cursor.current.kind ≠ .eof)
    (h : expressionRule parse context s = .ok e later) :
    s.Forward 1 later ∧ s.Tells later e.yield := by
  refine ⟨(expressionRule_proceed Session.frame_eq (hp.agree _) hs
    (Session.left_pos_iff.mpr hkind) context le_rfl).forward h, ?_⟩
  unfold expressionRule at h
  rw [bind_run, takeKeyword_run] at h
  cases hword : s.cursor.current.isKeyword "constexpr" with
  | false =>
    simp only [hword] at h
    exact operandFrom_tells hp hs hkind h
  | true =>
    simp only [hword, if_true] at h
    have hform : s.cursor.current.kind = .keyword ∧ s.cursor.current.text = "constexpr" := by
      simpa [Token.isKeyword, Token.hasForm] using hword
    have hread : s.Tells (s.on .advance) [] :=
      .silent hs.tidy hkind (by simp [Token.isOperator, Token.hasForm, hform])
        (by simp [Token.words, hform])
    have hs₁ := hread.ready hs
    by_cases hend : (s.on .advance).cursor.current.kind = .eof
    · rw [← hs.tidy.advance_previous hkind] at hform
      have hpast : 0 < (s.on .advance).past := hs.past_pos (.advance_min hs.tidy)
      exact absurd h (operandFrom_atEnd hp hs₁ hpast hend hform.1 hform.2)
    · exact hread.trans (operandFrom_tells hp hs₁ hend h)

/-! ## Operations -/

omit hp in
theorem combine_ok {op : Operator} {left right : Expression} {line : ℕ}
    (h : combine op left right line s = .ok e later) :
    s = later ∧ e.yield = left.yield ++ .symbol op.symbol :: right.yield := by
  unfold combine at h
  split at h
  next attr qualities constant =>
    generalize attributeType.addQualities qualities = layered at h
    obtain ⟨type, conflict⟩ := layered
    cases conflict <;> cases h
    exact ⟨rfl, rfl⟩
  next =>
    cases h
    exact ⟨rfl, rfl⟩
  next => cases h
  next => cases h
  next =>
    cases h
    exact ⟨rfl, rfl⟩

theorem index_tells {left : Expression} (hs : s.Ready)
    (hdemands : s.cursor.previous.demandsOperand = true)
    (h : index parse left s = .ok e later) :
    ∃ words, s.Tells later words ∧ e.yield = left.yield ++ words := by
  unfold index at h
  obtain ⟨index, s₁, hindex, h⟩ := exists_of_bind h
  have htold := (hp.expression hs (fun _ => hdemands) hindex).2
  obtain ⟨_, s₂, hclose, h⟩ := exists_of_bind h
  have hclosed := expectPunctuation_tells (htold.ready hs) (Grouping.closing_mem .bracket) hclose
  cases h
  exact ⟨_, htold.trans hclosed, by simp [Expression.yield]⟩

theorem arguments_tells {name : Expression} (hs : s.Ready)
    (hkind : s.cursor.current.kind ≠ .eof)
    (h : arguments parse name context s = .ok e later) :
    ∃ words, s.Tells later words ∧ e.yield = name.yield ++ words := by
  unfold arguments at h
  obtain ⟨args, s₁, hargs, h⟩ := exists_of_bind h
  have htold := (hp.expression hs (fun heof => absurd heof hkind) hargs).2
  refine ⟨args.yield, ?_⟩
  cases args with
  | list kind elements qualities constant =>
    cases h
    exact ⟨htold, rfl⟩
  | _ =>
    cases h
    exact ⟨htold, by simp [Expression.yield, Expression.yields]⟩

omit hp in
/-- The symbol that opens an index tells nothing. -/
theorem openingIndex_tells (hs : s.Ready)
    (hop : s.cursor.current.operator? = some .index) : s.Tells (s.on .advance) [] := by
  have hkind := Token.kind_of_operator? hop
  have hread := Session.Forward.advance hs.tidy hkind
  obtain ⟨hform, hspelled⟩ := Token.ofSymbol?_of_operator? hop
  have htext : s.cursor.current.text = "[" := (Operator.symbol_of_ofSymbol? hspelled).symm
  by_cases hadmitted : s.cursor.current.Admitted
  · have hwords : s.cursor.current.words = [] := by
      rcases hform with hform | hform | hform
      · simp [Token.words, hform, htext, groupingSymbols]
      · simp [Token.words, hform, htext, groupingSymbols]
      · have hmem := hadmitted hform
        rw [htext] at hmem
        exact absurd hmem (by decide)
    exact .silent hs.tidy hkind (by simp [Token.isOperator, Token.hasForm, htext]) hwords
  · exact ⟨hread.weaken (Nat.zero_le _), .inl (Session.spoiled_of_current hadmitted hread.past_le)⟩

/-- An operation adds its operator and what it takes for its right operand. -/
theorem operation_tells {op : Operator} {left : Expression} (hs : s.Ready)
    (hop : s.cursor.current.operator? = some op)
    (hsign : op = .bitAnd → (s.cursor.rest.head?.any (·.kind == .keyword)) = false)
    (h : operation parse left op context s = .ok e later) :
    ∃ words, s.Tells later words ∧ e.yield = left.yield ++ words := by
  have hkind := Token.kind_of_operator? hop
  have hread := Session.Forward.advance hs.tidy hkind
  have hs₁ : (s.on .advance).Ready := hs.forward hread rfl
  have hdemands : (s.on .advance).cursor.previous.demandsOperand = true := by
    rw [hs.tidy.advance_previous hkind]
    exact Token.demandsOperand_of_operator? hop
  by_cases hindex : op = .index
  · subst hindex
    obtain ⟨words, htold, hyield⟩ := index_tells hp hs₁ hdemands h
    exact ⟨_, (openingIndex_tells hs hop).trans htold, hyield⟩
  by_cases hproc : op = .procOperator
  · subst hproc
    exact arguments_tells hp hs hkind h
  replace h : (do
      let right ← parse (.expression (context.operand op.precedence))
      let right ← parse (.operations right op.precedence context)
      combine op left right s.cursor.current.line) (s.on .advance) = .ok e later := by
    cases op <;> first | contradiction | exact h
  obtain ⟨first, s₁, hfirst, h⟩ := exists_of_bind h
  obtain ⟨hmore, htold⟩ := hp.expression hs₁ (fun _ => hdemands) hfirst
  obtain ⟨right, s₂, hright, h⟩ := exists_of_bind h
  obtain ⟨words, htold', hwords⟩ := hp.operations (htold.ready hs₁) hright
  obtain ⟨rfl, hyield⟩ := combine_ok h
  have hall : (s.on .advance).Tells s₂ right.yield := by
    rw [hwords]
    exact htold.trans htold'
  obtain ⟨hform, hspelled⟩ := Token.ofSymbol?_of_operator? hop
  refine ⟨s.cursor.current.words ++ right.yield, .operator hs.tidy hkind (fun hamp => hsign ?_)
    (hmore.trans htold'.forward) hall, ?_⟩
  · have htext := (Bool.and_eq_true_iff.mp hamp).2
    rw [beq_iff_eq.mp htext] at hspelled
    cases hspelled
    rfl
  · rw [Token.words_of_ofSymbol? hspelled hindex hproc hform, hyield]
    rfl

theorem operationsRule_tells {left : Expression} {floor : ℕ} (hs : s.Ready)
    (h : operationsRule parse left floor context s = .ok e later) :
    ∃ words, s.Tells later words ∧ e.yield = left.yield ++ words := by
  rcases operationsRule_ok h with ⟨rfl, rfl, -⟩ | ⟨op, combined, s₁, hop, hsign, hcombined, h⟩
  · exact ⟨[], .refl hs.tidy, (List.append_nil _).symm⟩
  · obtain ⟨words, htold, hyield⟩ := operation_tells hp hs hop hsign hcombined
    obtain ⟨words', htold', hyield'⟩ := hp.operations (htold.ready hs) h
    exact ⟨words ++ words', htold.trans htold', by rw [hyield', hyield, List.append_assoc]⟩

omit hp

/-! ## The descent -/

/-- The descent is faithful in any number of steps. -/
theorem faithful_descend (steps : ℕ) : Faithful (descend steps) := by
  induction steps with
  | zero =>
    exact ⟨descend_agree_self Session.frame_eq 0, operand_of_demandsOperand, nofun, nofun, nofun⟩
  | succ steps ih =>
    refine ⟨descend_agree_self Session.frame_eq _, operand_of_demandsOperand,
      fun {context s e later} hs hdemands h => ?_, fun hs h => operationsRule_tells ih hs h,
      fun hs h => elementsRule_tells ih hs h⟩
    by_cases hend : s.cursor.current.kind = .eof
    · exact absurd h (descend_expression_atEnd hs hend (hdemands hend))
    · exact expressionRule_tells ih hs hend h

/-- An expression that is read has the words of the tokens that are read for it, wherever the
    reading begins, as long as they hold no reserved words but `and`, `or`, `xor`, `not`,
    `constexpr`, `len`, `size` and `var`. -/
theorem yield_of_expression (hclosed : ∃ token ∈ s.cursor.ahead, token.kind = .eof)
    (hstart : s.cursor.current.kind ≠ .eof) (h : expression context s = .ok e later)
    (hwords : ∀ token ∈ s.consumed later, token.Admitted) :
    s.Passes later (s.consumed later) ∧ e.yield = strip (s.consumed later) := by
  -- what was read before does not matter
  let fresh : Session := s.on fun cursor => { cursor with passed := [] }
  have hfresh : fresh.Ready :=
    ⟨rfl, ⟨hclosed, nofun⟩, Nat.add_pos_right _ (Session.left_pos_iff.mpr hstart)⟩
  have hagree := descend_agree_self (Session.frame_after s.cursor.passed) (stepsFor s.cursor)
    ((Goal.expression context).rank fresh.left + 1) (.expression context) fresh s
    ⟨rfl, hfresh.tidy, hfresh.ready⟩ (Nat.lt_succ_self _)
  obtain ⟨later', hlater', rfl⟩ := hagree.exists_run h
  have htold := ((faithful_descend _).expression hfresh (fun hend => absurd hend hstart) hlater').2
  have hconsumed : s.consumed (later'.after s.cursor.passed) = fresh.consumed later' := by
    have hpast : (later'.after s.cursor.passed).past = later'.past + s.past := by
      simp [Session.past, Session.after, Session.on]
    rw [Session.consumed, hpast, Nat.add_sub_cancel]
    rfl
  rw [hconsumed] at hwords ⊢
  obtain ⟨hpasses, hyield⟩ := htold.of_admitted hwords
  refine ⟨⟨hpasses.ahead, ?_⟩, hyield⟩
  show later'.cursor.passed ++ s.cursor.passed = _
  rw [hpasses.passed]
  exact congrArg (· ++ s.cursor.passed) (List.append_nil _)

theorem yield_of_expression_call :
    let s := Session.ofTokens [⟨.operator, "@", 1⟩, ⟨.identifier, "f", 1⟩, ⟨.punctuation, "(", 1⟩,
      ⟨.identifier, "a", 1⟩, ⟨.operator, "&", 1⟩, ⟨.keyword, "constexpr", 1⟩,
      ⟨.punctuation, ",", 1⟩, ⟨.int, "2", 1⟩, ⟨.punctuation, ")", 1⟩, ⟨.punctuation, ";", 1⟩]
    ∃ e later, expression {} s = .ok e later ∧ s.Passes later (s.consumed later) ∧
      e.yield = strip (s.consumed later) := by
  intro s
  have hok : (match expression {} s with
      | .ok _ _ => true
      | .error _ _ => false) = true := by decide +kernel
  have hwords : ∀ token ∈ s.cursor.ahead, token.Admitted := by decide
  cases hrun : expression {} s with
  | error failure later =>
    rw [hrun] at hok
    cases hok
  | ok e later =>
    exact ⟨e, later, rfl, yield_of_expression ⟨Token.eof 1, by decide, rfl⟩ (by decide) hrun
      fun token hmem => hwords token (List.mem_of_mem_take hmem)⟩

end Parser

end SinFrontend
