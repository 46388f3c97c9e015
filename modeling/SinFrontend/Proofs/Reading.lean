import SinFrontend.Proofs.Run

/-!
# Readings

`Reads goal s a s'` says that a goal is read from one session to another with a value, in every
number of steps from some number on. Readings are put together from readings of the goals that a
rule asks for; how many steps each of them needs is never counted.

* `Session.between`: a session by the tokens before and from its cursor on.
* `Takes`: a parser that may also note something takes tokens for a value.
* `reads_operations_of_closes`: where operations stop.
* `continue_of_operations`: an operand is read as far as the operations behind it are.
-/

namespace SinFrontend

/-! ## Sessions by their tokens -/

/-- The cursor between two lists of tokens, the first of them reversed. -/
def Cursor.between (passed : List Token) : List Token → Cursor
  | [] => ⟨passed, Token.eof 0, []⟩
  | current :: rest => ⟨passed, current, rest⟩

/-- A session with its cursor put between two lists of tokens. -/
def Session.between (base : Session) (passed ahead : List Token) : Session :=
  { base with cursor := .between passed ahead }

namespace Session

variable (base : Session) (passed ahead rest : List Token) (token : Token)

@[simp] theorem between_current : (base.between passed (token :: rest)).cursor.current = token :=
  rfl

@[simp] theorem between_rest : (base.between passed (token :: rest)).cursor.rest = rest := rfl

theorem between_ahead (h : ahead ≠ []) : (base.between passed ahead).cursor.ahead = ahead := by
  cases ahead with
  | nil => exact absurd rfl h
  | cons token rest => rfl

@[simp] theorem between_previous :
    (base.between (token :: passed) ahead).cursor.previous = token := by
  cases ahead <;> rfl

@[simp] theorem between_between (passed' ahead' : List Token) :
    (base.between passed ahead).between passed' ahead' = base.between passed' ahead' := rfl

theorem between_self (session : Session) :
    session.between session.cursor.passed session.cursor.ahead = session := rfl

/-- A session in front of some tokens lies between others and them. -/
theorem exists_between {session : Session} {ahead : List Token}
    (h : session.cursor.ahead = ahead) :
    ∃ (base : Session) (passed : List Token), session = base.between passed ahead :=
  ⟨session, session.cursor.passed, h ▸ rfl⟩

@[simp] theorem between_advance (h : token.kind ≠ .eof) (hrest : rest ≠ []) :
    (base.between passed (token :: rest)).on .advance = base.between (token :: passed) rest := by
  cases rest with
  | nil => exact absurd rfl hrest
  | cons next more => simp [Session.between, Session.on, Cursor.between, Cursor.advance,
      Cursor.atEnd, h]

@[simp] theorem between_retreat (h : ahead ≠ []) :
    (base.between (token :: passed) ahead).on .retreat = base.between passed (token :: ahead) := by
  cases ahead with
  | nil => exact absurd rfl h
  | cons next more => rfl

end Session

/-! ## Readings -/

namespace Parser

variable {α β : Type} {s s' s'' : Session} {a : α} {next : Token} {rest : List Token}

/-- A goal is read with a value, in all numbers of steps but finitely many. -/
def Reads (goal : Goal α) (s : Session) (a : α) (s' : Session) : Prop :=
  ∀ᶠ steps in Filter.atTop, descend steps goal s = .ok a s'

/-- A goal is read as its rule reads it. -/
theorem Reads.of_rule {goal : Goal α}
    (h : ∀ᶠ steps in Filter.atTop, rule (descend steps) goal s = .ok a s') : Reads goal s a s' := by
  obtain ⟨enough, henough⟩ := Filter.eventually_atTop.mp h
  refine Filter.eventually_atTop.mpr ⟨enough + 1, fun steps hsteps => ?_⟩
  obtain ⟨extra, rfl⟩ := Nat.exists_eq_add_of_le' hsteps
  exact henough (extra + enough) (Nat.le_add_left _ _)

theorem Reads.unique {goal : Goal α} {b : α} (h : Reads goal s a s') (h' : Reads goal s b s'') :
    a = b ∧ s' = s'' := by
  obtain ⟨steps, hsteps, hsteps'⟩ := (h.and h').exists
  rw [hsteps] at hsteps'
  exact ⟨by injection hsteps', by injection hsteps'⟩

/-! ## Readings that may note something -/

/-- A parser takes tokens in front of others for a value, whatever lies before them. What it notes
    meanwhile is left open. -/
def Takes (p : Descent → Parser α) (tokens ahead : List Token) (a : α) : Prop :=
  ∀ (base : Session) (passed : List Token), ∃ base' : Session, ∀ᶠ steps in Filter.atTop,
    p (descend steps) (base.between passed (tokens ++ ahead)) =
      .ok a (base'.between (tokens.reverse ++ passed) ahead)

variable {p : Descent → Parser α} {tokens ahead : List Token}

theorem Takes.map (f : α → β) (h : Takes p tokens ahead a) :
    Takes (fun parse => f <$> p parse) tokens ahead (f a) := by
  intro base passed
  obtain ⟨base', hread⟩ := h base passed
  refine ⟨base', ?_⟩
  filter_upwards [hread] with steps hsteps
  rw [map_run, hsteps]

/-- A goal is taken as its rule takes it. -/
theorem Takes.of_rule {goal : Goal α} (h : Takes (fun parse => rule parse goal) tokens ahead a) :
    Takes (fun parse => parse goal) tokens ahead a := by
  intro base passed
  obtain ⟨base', hread⟩ := h base passed
  exact ⟨base', Reads.of_rule hread⟩

/-! ## Semicolons -/

/-- The cursor moves over tokens that are no ends of input. -/
theorem on_advanceBy (pending : List Token) (hpending : ∀ token ∈ pending, token.kind ≠ .eof)
    (base : Session) (passed : List Token) :
    (base.between passed (pending ++ next :: rest)).on (·.advanceBy pending.length) =
      base.between (pending.reverse ++ passed) (next :: rest) := by
  induction pending generalizing passed with
  | nil => rfl
  | cons token pending ih =>
    have hadvance := Session.between_advance base passed (pending ++ next :: rest) token
      (hpending token List.mem_cons_self) (by simp)
    have hmore := ih (fun token hmem => hpending token (List.mem_cons_of_mem _ hmem))
      (token :: passed)
    rw [← hadvance] at hmore
    simp only [List.reverse_cons, List.append_assoc, List.cons_append, List.nil_append]
    exact hmore

/-- Semicolons are skipped up to any other token. -/
theorem skipSemicolons_run (pending : List Token)
    (hpending : ∀ token ∈ pending, token.isPunctuation ";" = true)
    (hnext : next.isPunctuation ";" = false) (base : Session) (passed rest : List Token) :
    skipSemicolons (base.between passed (pending ++ next :: rest)) =
      .ok () (base.between (pending.reverse ++ passed) (next :: rest)) := by
  have hahead : (base.between passed (pending ++ next :: rest)).cursor.ahead.takeWhile
      (·.isPunctuation ";") = pending := by
    rw [Session.between_ahead _ _ _ (by simp), List.takeWhile_append_of_pos hpending,
      List.takeWhile_cons, hnext]
    simp
  have hkind (token : Token) (hmem : token ∈ pending) : token.kind ≠ .eof := by
    simp [kind_of_isPunctuation (hpending token hmem)]
  rw [← on_advanceBy pending hkind, skipSemicolons, move_run]
  simp only [Session.on, Cursor.skipWhile, hahead]

/-! ## Where an expression stops -/

/-- Whether a list of tokens begins with a reserved word. -/
def keywordAhead (tokens : List Token) : Bool :=
  tokens.head?.any (·.kind == .keyword)

/-- Whether no mark of an operand stands ahead. -/
def Unmarked (next : Token) (rest : List Token) : Prop :=
  (next.isOperator "&" && keywordAhead rest) = false

/-- What is ahead ends an expression whose outermost operator has a given level. -/
structure Closes (context : Context) (level : ℕ) (next : Token) (rest : List Token) : Prop where
  unmarked : Unmarked next rest
  stops : endsExpression context next = true ∨
    ∃ op, next.operator? = some op ∧
      (isLeftToStatement context op = true ∨ op.isPrefixOnly = false ∧ op.precedence ≤ level)

variable {base : Session} {context : Context} {passed : List Token}

theorem Closes.mono {level higher : ℕ} (h : Closes context level next rest)
    (hle : level ≤ higher) : Closes context higher next rest := by
  refine ⟨h.unmarked, h.stops.imp_right ?_⟩
  rintro ⟨op, hop, hleft | ⟨honly, hprec⟩⟩
  · exact ⟨op, hop, .inl hleft⟩
  · exact ⟨op, hop, .inr ⟨honly, hprec.trans hle⟩⟩

/-- Operations stop where what is ahead ends the expression. -/
theorem reads_operations_of_closes {left : Expression} {floor : ℕ}
    (h : Closes context floor next rest) :
    Reads (.operations left floor context) (base.between passed (next :: rest)) left
      (base.between passed (next :: rest)) := by
  have hstops : Stops context floor (base.between passed (next :: rest)) := by
    rcases h.stops with hends | ⟨op, hop, hleft | ⟨hbinary, hlevel⟩⟩
    · exact .ends hends
    · exact .statement hop hleft
    · exact .weak hop hbinary hlevel
  exact .of_rule (.of_forall fun steps => operationsRule_of_stops hstops (descend steps) left)

/-! ## Behind an operand -/

theorem markedOperand_of_unmarked (operand : Expression) (h : Unmarked next rest) :
    markedOperand operand (base.between passed (next :: rest)) =
      .ok (operand, false) (base.between passed (next :: rest)) := by
  have : (next.isOperator "&" && rest.head?.any (·.kind == .keyword)) = false := h
  simp [markedOperand, atPostfixedMark, this]

/-- Where only the first operand is read, it is taken as it is. -/
theorem continueOperand_primary {operand : Expression}
    (hconst : operand.isLiteral = true → operand.setConst true = operand)
    (hprimary : context.primaryOnly = true) (hmark : Unmarked next rest) (isList : Bool)
    (parse : Descent) :
    continueOperand parse context false (operand, isList) (base.between passed (next :: rest)) =
      .ok operand (base.between passed (next :: rest)) := by
  simp [continueOperand, markedOperand_of_unmarked _ hmark, hprimary]
  exact hconst

/-- An operand that is no list is read as far as the operations behind it are. -/
theorem continue_of_operations {operand result : Expression}
    (hconst : operand.isLiteral = true → operand.setConst true = operand)
    (hcontext : context.primaryOnly = false) (hmark : Unmarked next rest)
    (h : Reads (.operations operand context.floor context) (base.between passed (next :: rest))
      result s') :
    ∀ᶠ steps in Filter.atTop, continueOperand (descend steps) context false (operand, false)
      (base.between passed (next :: rest)) = .ok result s' := by
  by_cases hstop : context.stopsAtAssignment = true ∧
      (next.operator?.any fun op => op.isCopyAssignment || op.isMoveAssignment) = true
  · obtain ⟨hctx, hassign⟩ := hstop
    obtain ⟨op, hop, hkind⟩ := (Option.any_eq_true _ _).mp hassign
    have hleft : isLeftToStatement context op = true := by
      simp only [isLeftToStatement, hctx]
      revert hkind
      cases op.isCopyAssignment <;> cases op.isMoveAssignment <;> simp
    have hdone : Reads (.operations operand context.floor context)
        (base.between passed (next :: rest)) operand (base.between passed (next :: rest)) :=
      reads_operations_of_closes ⟨hmark, .inr ⟨op, hop, .inl hleft⟩⟩
    obtain ⟨rfl, rfl⟩ := h.unique hdone
    refine .of_forall fun steps => ?_
    simp [continueOperand, atAssignment, markedOperand_of_unmarked _ hmark, hcontext, hctx,
      hassign]
    exact hconst
  · filter_upwards [h] with steps hsteps
    have hoperand : (if operand.isLiteral = true then operand.setConst true else operand) =
        operand := by
      split
      · exact hconst ‹_›
      · rfl
    cases hctx : context.stopsAtAssignment with
    | false =>
      simp [continueOperand, atAssignment, markedOperand_of_unmarked _ hmark, hcontext, hctx,
        hoperand, hsteps]
    | true =>
      have hassign := not_and.mp hstop hctx
      simp [continueOperand, atAssignment, markedOperand_of_unmarked _ hmark, hcontext, hctx,
        hassign, hoperand, hsteps]

end Parser

end SinFrontend
