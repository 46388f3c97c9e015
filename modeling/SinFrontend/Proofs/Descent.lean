import SinFrontend.Proofs.Agreement.Statements

/-!
# Steps of the descent

How many steps a goal is given does not matter, as long as they are as many as its rank. So the
parsers for whole trees, which allow each token several steps, read what any larger number of steps
reads.

* `descend_agree`: two numbers of steps that both reach the rank of a goal read it alike, also from
  sessions that merely correspond.
* `full_eq_descend`: the parsers for whole trees read what the descent reads in enough steps.
* `Session.frame_after`: what was read before plays no part.
-/

namespace SinFrontend

theorem Session.frame_eq : Session.Frame (· = ·) where
  ahead h := by rw [h]
  previous h _ := by rw [h]
  advance h := by rw [h]
  retreat h _ := by rw [h]
  split h _ _ _ _ _ := by rw [h]
  record h _ := by rw [h]

/-- A session from which something can be read: it stands at a token or behind one. -/
abbrev Session.Ready (s : Session) : Prop :=
  Parser.Abreast (· = ·) s s

/-- The session with more tokens before those that have been read. -/
def Session.after (s : Session) (before : List Token) : Session :=
  s.on fun cursor => { cursor with passed := cursor.passed ++ before }

theorem Session.frame_after (before : List Token) :
    Session.Frame fun s t => t = s.after before where
  ahead := by
    rintro s _ rfl
    rfl
  previous := by
    rintro s _ rfl hpast
    obtain ⟨last, passed, hpassed⟩ := List.exists_cons_of_length_pos hpast
    simp [after, on, Cursor.previous, hpassed]
  advance := by
    rintro s _ rfl
    rcases s with ⟨⟨passed, current, rest⟩, _, _⟩
    cases hend : current.kind == .eof <;> cases rest <;>
      simp [after, on, Cursor.advance, Cursor.atEnd, hend]
  retreat := by
    rintro s _ rfl hpast
    obtain ⟨last, passed, hpassed⟩ := List.exists_cons_of_length_pos hpast
    simp [after, on, Cursor.retreat, hpassed]
  split := by
    rintro s _ rfl
    intros
    rfl
  record := by
    rintro s _ rfl
    intros
    rfl

namespace Parser

variable {α : Type} {corr : Session → Session → Prop} {s t : Session}

/-! ## A missing operand at the end of input -/

/-- A missing operand at the end of input is asked for again and again. -/
theorem descend_expression_unfinished (hend : s.atEnd = true)
    (hopens : s.cursor.previous.opensOperand = true) (steps : ℕ) (context : Context) :
    descend steps (.expression context) s = .error .unfinished s := by
  have hkind : s.cursor.current.kind = .eof := by simpa [Session.atEnd, Cursor.atEnd] using hend
  have hpunct (mark : String) : s.cursor.current.isPunctuation mark = false :=
    hasForm_eof hkind (by decide)
  have hword : s.cursor.current.isKeyword "constexpr" = false := hasForm_eof hkind (by decide)
  induction steps generalizing context with
  | zero => rfl
  | succ steps ih =>
    suffices hoperand : operand (descend steps) context s.cursor.previous s =
        .error .unfinished s by
      show expressionRule (descend steps) context s = _
      simp [expressionRule, bind_run, hword, Session.on_advance_of_atEnd hend, hoperand]
    have hunary (op : Operator) : unary (descend steps) context op s = .error .unfinished s := by
      rw [unary, bind_run, ih]
    cases htoken : s.cursor.previous.kind with
    | keyword =>
      simp only [Token.opensOperand, htoken] at hopens
      simp [operand, htoken, bind_run, keywordOperand, hopens, hunary]
    | operator =>
      by_cases hcall : s.cursor.previous.text = Operator.controlTransfer.symbol
      · simp [operand, htoken, bind_run, operatorOperand, hcall, ih]
      · simp only [Token.opensOperand, htoken, beq_iff_eq, hcall, Bool.or_eq_true,
          false_or] at hopens
        obtain ⟨op, hop⟩ := Option.isSome_iff_exists.mp hopens
        simp [operand, htoken, bind_run, operatorOperand, hcall, hop, hunary]
    | punctuation =>
      simp only [Token.opensOperand, htoken] at hopens
      obtain ⟨opened, hgroup⟩ := Option.isSome_iff_exists.mp hopens
      simp [operand, htoken, hgroup, group, bind_run, hpunct, ih]
    | _ => simp [Token.opensOperand, htoken] at hopens

/-! ## Enough steps -/

/-- The rule of expressions agrees with itself also where an operand is missing at the end of
    input: neither reading ends there. -/
theorem descend_expression_proceed (frame : Session.Frame corr) {bound n m : ℕ}
    (h : AgreeBelow corr bound (descend n) (descend m)) (hab : Abreast corr s t)
    (hend : s.left = 0) (context : Context) (hbound : 5 ≤ bound) :
    Proceed corr 0 (expressionRule (descend n) context) (expressionRule (descend m) context)
      s t := by
  have hpast : 0 < s.past := by
    have := hab.ready
    omega
  cases hopens : s.cursor.previous.opensOperand with
  | false => exact expressionRule_proceed_atEnd frame h hab hend hopens context hbound
  | true =>
    have hs : s.atEnd = true := Session.left_eq_zero_iff.mp hend
    have ht : t.atEnd = true := by
      simpa [Session.atEnd, Cursor.atEnd, (List.cons.inj (frame.ahead hab.corr)).1] using hs
    show Proceed corr 0 (descend (n + 1) (.expression context))
      (descend (m + 1) (.expression context)) s t
    unfold Proceed Agree
    rw [descend_expression_unfinished hs hopens, descend_expression_unfinished ht
      (frame.previous hab.corr hpast ▸ hopens)]
    exact .error hab.corr

/-- Rules that ask for readings that agree on goals of some rank agree on goals of one higher rank,
    if the rule of expressions does so at the end of input. -/
theorem rule_agree (frame : Session.Frame corr) {bound : ℕ} {parse parse' : Descent}
    (h : AgreeBelow corr bound parse parse')
    (hmissing : ∀ {s t : Session} (context : Context), Abreast corr s t → s.left = 0 → 5 ≤ bound →
      Proceed corr 0 (expressionRule parse context) (expressionRule parse' context) s t) :
    AgreeBelow corr (bound + 1) (rule parse) (rule parse') := by
  intro α goal s t hab hrank
  replace hrank : goal.rank s.left ≤ bound := by omega
  cases goal with
  | typeName => exact typeNameRule_proceed frame h hab hrank
  | members => exact (tupleMembers_proceed frame h hab hrank).weaken (by simp [Goal.length])
  | expression context =>
    rcases Nat.eq_zero_or_pos s.left with hend | hleft
    · simp only [Goal.rank] at hrank
      exact (hmissing context hab hend (by omega)).weaken (by omega)
    · exact (expressionRule_proceed frame h hab hleft context hrank).weaken (Nat.min_le_left 1 _)
  | operations left floor context =>
    exact (operationsRule_proceed frame h hab left floor context hrank).weaken
      (by simp [Goal.length])
  | elements context =>
    exact (elementsRule_proceed frame h hab context hrank).weaken (by simp [Goal.length])
  | initializers =>
    exact (initializersRule_proceed frame h hab hrank).weaken (by simp [Goal.length])
  | statement isParameter => exact statementRule_proceed frame h hab isParameter hrank
  | statements =>
    exact (statementsRule_proceed frame h hab hrank).weaken (by simp [Goal.length])
  | parameters =>
    exact (parametersRule_proceed frame h hab hrank).weaken (by simp [Goal.length])

/-- One more step on both sides keeps two readings alike, for goals of one higher rank. -/
theorem descend_succ_agree (frame : Session.Frame corr) {bound n m : ℕ}
    (h : AgreeBelow corr bound (descend n) (descend m)) :
    AgreeBelow corr (bound + 1) (descend (n + 1)) (descend (m + 1)) :=
  rule_agree frame h fun context hab hend hbound =>
    descend_expression_proceed frame h hab hend context hbound

/-- If one more step on both sides keeps two readings alike, they are alike in any numbers of steps
    that reach the rank of the goal. -/
theorem agreeBelow_of_succ (read : ℕ → Descent)
    (h : ∀ {bound n m : ℕ}, AgreeBelow corr bound (descend n) (read m) →
      AgreeBelow corr (bound + 1) (descend (n + 1)) (read (m + 1))) {bound n m : ℕ}
    (hn : bound ≤ n) (hm : bound ≤ m) : AgreeBelow corr (bound + 1) (descend n) (read m) := by
  induction bound generalizing n m with
  | zero =>
    intro α goal s t _ hrank
    have := goal.rank_pos s.left
    omega
  | succ bound ih =>
    obtain ⟨n, rfl⟩ := Nat.exists_eq_add_of_le' hn
    obtain ⟨m, rfl⟩ := Nat.exists_eq_add_of_le' hm
    exact h (ih (Nat.le_add_left bound n) (Nat.le_add_left bound m))

/-- Two numbers of steps that reach the rank of a goal read it alike. -/
theorem descend_agree (frame : Session.Frame corr) {bound n m : ℕ} (hn : bound ≤ n)
    (hm : bound ≤ m) : AgreeBelow corr (bound + 1) (descend n) (descend m) :=
  agreeBelow_of_succ descend (descend_succ_agree frame) hn hm

/-- Any number of steps reads alike from sessions that correspond. -/
theorem descend_agree_self (frame : Session.Frame corr) (steps bound : ℕ) :
    AgreeBelow corr bound (descend steps) (descend steps) := by
  induction steps generalizing bound with
  | zero =>
    intro α goal s t hab _
    exact EndsAlike.error hab.corr
  | succ steps ih =>
    intro α goal s t hab hrank
    exact descend_succ_agree frame (ih bound) goal s t hab (by omega)

/-! ## The steps of the parsers for whole trees -/

/-- The steps for the tokens of a cursor reach the rank of every goal. -/
theorem rank_le_stepsFor (goal : Goal α) (session : Session) :
    goal.rank session.left ≤ stepsFor session.cursor := by
  have hleft : session.left ≤ session.cursor.rest.length + 1 :=
    (List.takeWhile_sublist _).length_le
  have hrank : goal.rank session.left ≤ 3 * session.left + 10 := by
    cases goal <;> simp only [Goal.rank] <;> try split
    all_goals omega
  unfold stepsFor Cursor.size
  omega

/-- Reading a goal as part of a whole tree is reading it in any number of steps that reaches its
    rank. -/
theorem full_eq_descend (goal : Goal α) (hs : s.Tidy) (hready : 0 < s.past + s.left) {steps : ℕ}
    (hsteps : goal.rank s.left ≤ steps) : full goal s = descend steps goal s := by
  have hab : Abreast (· = ·) s s := ⟨rfl, hs, hready⟩
  have hagree := descend_agree Session.frame_eq (rank_le_stepsFor goal s) hsteps goal s s hab
    (Nat.lt_succ_self _)
  show descend (stepsFor s.cursor) goal s = _
  unfold Proceed Agree at hagree
  generalize descend (stepsFor s.cursor) goal s = x, descend steps goal s = y at hagree ⊢
  cases hagree with
  | ok hc _ => rw [hc]
  | error hc => rw [hc]

end Parser

end SinFrontend
