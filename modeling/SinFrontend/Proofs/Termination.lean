import SinFrontend.Proofs.Synchronization

/-!
# Parsers end

At the end of input a token is handed out once more. If an operand must follow that token, it is
asked for again and again; this is the only way in which parsers can go on forever.

A list that does not end in such a token rules it out. On such a list nothing that a caller can ask
of a parser uses up its steps, whatever was asked before, and the loop of a compilation ends within
its rounds.

* `Token.isOpener`: the tokens behind which an operand must follow.
* `Parser.Request`, `Parser.Reachable`: what can be asked, and the sessions that come of it.
* `Parser.settle`: the descent with another last step, which it is shown never to reach.
* `Parser.run_settles`: every request ends, and leaves a session of the same kind.
* `Parser.ends_of_complete`: parsers and the loop end.
-/

namespace SinFrontend

/-! ## Lists behind which no operand is missing -/

/-- Whether an operand must follow a token: behind the opening symbol of a group, behind a prefix
    operator, and behind the word `not`, whichever class it is given. -/
def Token.isOpener (token : Token) : Bool :=
  match token.kind with
  | .punctuation => ["(", "[", "\x7b"].contains token.text
  | .operator => ["+", "-", "*", "$", "~", "@", "not"].contains token.text
  | .keyword => token.text == "not"
  | _ => false

/-- Whether the last token before the first end of input is an opener. -/
def awaitsOperand (tokens : List Token) : Bool :=
  (tokens.takeWhile (·.kind != .eof)).getLast?.any (·.isOpener)

theorem isSome_ofOpening? (text : String) :
    (Grouping.ofOpening? text).isSome = ["(", "[", "\x7b"].contains text := by
  by_cases h : text ∈ ["(", "[", "\x7b"]
  · simp only [List.mem_cons, List.not_mem_nil, or_false] at h
    rcases h with rfl | rfl | rfl <;> rfl
  · rw [List.contains_eq_mem, decide_eq_false h, Bool.eq_false_iff]
    intro hgroup
    obtain ⟨group, hgroup⟩ := Option.isSome_iff_exists.mp hgroup
    have hopening : group.opening = text := by simpa using List.find?_some hgroup
    subst hopening
    cases group <;> simp [Grouping.opening] at h

/-- Prefix operators are told by their spelling. -/
theorem isSome_toUnary? (text : String) :
    ((Operator.ofSymbol? text).bind Operator.toUnary?).isSome =
      ["+", "-", "*", "$", "~", "not"].contains text := by
  by_cases h : text ∈ ["+", "-", "*", "$", "~", "not"]
  · simp only [List.mem_cons, List.not_mem_nil, or_false] at h
    rcases h with rfl | rfl | rfl | rfl | rfl | rfl <;> rfl
  · rw [List.contains_eq_mem, decide_eq_false h, Bool.eq_false_iff]
    intro hunary
    obtain ⟨unary, hunary⟩ := Option.isSome_iff_exists.mp hunary
    obtain ⟨op, hop, hprefix⟩ := Option.bind_eq_some_iff.mp hunary
    have hsymbol : op.symbol = text := by simpa using List.find?_some hop
    subst hsymbol
    cases op <;> simp [Operator.symbol, Operator.toUnary?] at h hprefix

theorem opensOperand_eq_isOpener (token : Token) : token.opensOperand = token.isOpener := by
  obtain ⟨kind, text, line⟩ := token
  cases kind with
  | operator =>
    simp only [Token.opensOperand, Token.isOpener, isSome_toUnary?, List.contains_cons,
      List.contains_nil, Operator.symbol]
    grind
  | punctuation => exact isSome_ofOpening? text
  | _ => rfl

/-- Closing brackets, which are no openers, play no part in it. -/
theorem awaitsOperand_eq (tokens : List Token) :
    awaitsOperand tokens =
      ((tokens.map Token.solid?).takeWhile (·.all (·.kind != .eof))).getLast?.any
        (·.any (·.isOpener)) := by
  have hoperator {token : Token} (h : Parser.isClosingAngle token = true) :
      token.kind = .operator ∧ token.isOpener = false := by
    simp only [Parser.isClosingAngle, Bool.and_eq_true, beq_iff_eq, List.all_eq_true] at h
    refine ⟨h.1.1, ?_⟩
    rw [Token.isOpener, h.1.1, Bool.eq_false_iff]
    intro hmem
    simp only [List.contains_eq_mem, List.mem_cons, List.not_mem_nil, or_false,
      decide_eq_true_eq] at hmem
    rcases hmem with htext | htext | htext | htext | htext | htext | htext <;>
      simp [htext] at h
  have hkind : (fun token => (Token.solid? token).all (·.kind != .eof)) =
      fun token : Token => token.kind != .eof := by
    funext token
    unfold Token.solid?
    split
    next h => simp [(hoperator h).1]
    next => rfl
  have hopener : (fun token => (Token.solid? token).any (·.isOpener)) = Token.isOpener := by
    funext token
    unfold Token.solid?
    split
    next h => simp [(hoperator h).2]
    next => rfl
  rw [List.takeWhile_map, List.getLast?_map, Option.any_map]
  simp only [Function.comp_def, hkind, hopener, awaitsOperand]

namespace Session

variable {s t : Session}

/-- No operand is missing behind the tokens of a session. -/
def Complete (session : Session) : Prop :=
  awaitsOperand session.cursor.tokens = false

theorem Complete.of_tokens (h : s.Complete)
    (htokens : t.cursor.tokens.map Token.solid? = s.cursor.tokens.map Token.solid?) :
    t.Complete := by
  rwa [Complete, awaitsOperand_eq, htokens, ← awaitsOperand_eq]

theorem Complete.on {step : Cursor → Cursor} (h : s.Complete)
    (hstep : (step s.cursor).tokens = s.cursor.tokens) : (s.on step).Complete :=
  h.of_tokens (congrArg _ hstep)

theorem complete_ofTokens {tokens : List Token} (h : awaitsOperand tokens = false) :
    (Session.ofTokens tokens).Complete := by
  cases tokens with
  | nil => rfl
  | cons first rest =>
    rw [Complete, ofTokens, Cursor.tokens, Cursor.ofTokens, Cursor.ahead, List.reverse_nil,
      List.nil_append]
    split
    · exact h
    · rw [← List.cons_append, awaitsOperand]
      by_cases hall : ∀ token ∈ first :: rest, (token.kind != .eof) = true
      · rw [List.takeWhile_append_of_pos hall]
        have hself : (first :: rest).takeWhile (·.kind != .eof) = first :: rest :=
          List.takeWhile_eq_self_iff.mpr hall
        rw [awaitsOperand, hself] at h
        simpa [Token.eof] using h
      · rw [List.takeWhile_append, if_neg]
        · exact h
        · exact fun hlength => hall (List.takeWhile_eq_self_iff.mp
            ((List.takeWhile_prefix _).eq_of_length hlength))

/-- Equal sessions over complete tokens correspond, however they move. -/
theorem frame_complete : Session.Frame fun s t => s = t ∧ s.Complete where
  ahead h := by rw [h.1]
  previous h _ := by rw [h.1]
  advance h := ⟨by rw [h.1], h.2.on (Cursor.tokens_advance _)⟩
  retreat h _ := ⟨by rw [h.1], h.2.on (Cursor.tokens_retreat _)⟩
  split h hangle _ _ htext hmore :=
    ⟨by rw [h.1], h.2.of_tokens (Cursor.map_solid?_replaceText hangle htext hmore)⟩
  record h _ := ⟨by rw [h.1], h.2⟩

/-- At the end of input, the token that is handed out once more is no opener. -/
theorem Complete.previous (hc : s.Complete) (hs : s.Tidy) (hend : s.left = 0)
    (hpast : 0 < s.past) : s.cursor.previous.opensOperand = false := by
  obtain ⟨last, passed, hpassed⟩ := List.exists_cons_of_length_pos hpast
  have heof : s.cursor.current.kind = .eof := by
    simpa [atEnd, Cursor.atEnd] using left_eq_zero_iff.mp hend
  have hread : ∀ token ∈ s.cursor.passed.reverse, (token.kind != .eof) = true := by
    intro token hmem
    simpa using hs.passed token (List.mem_reverse.mp hmem)
  rw [Complete, awaitsOperand, Cursor.tokens, List.takeWhile_append_of_pos hread, Cursor.ahead,
    List.takeWhile_cons, heof, hpassed] at hc
  rw [opensOperand_eq_isOpener, Cursor.previous, hpassed]
  simpa using hc

end Session

namespace Parser

variable {α β : Type} {s later : Session}

/-! ## The descent with another last step -/

/-- Reads a goal in a number of steps. With no steps left, the next token is passed over and the
    reading is given up with an error. -/
def settle : ℕ → Descent
  | 0 => fun _ _ => do
    move Cursor.advance
    reject .unexpectedEndOfInput 0
  | steps + 1 => rule (settle steps)

theorem settle_leadsAll (steps : ℕ) : LeadsAll False (settle steps) := by
  induction steps with
  | zero => exact leadsAll_of_never fun _ _ => .rejected .refl
  | succ steps ih => exact rule_leadsAll ih

/-- Where no operand is missing, the last step of the descent is never taken. -/
theorem settle_agree {bound n m : ℕ} (hn : bound ≤ n) (hm : bound ≤ m) :
    AgreeBelow (fun s t => s = t ∧ s.Complete) (bound + 1) (descend n) (settle m) := by
  refine agreeBelow_of_succ settle (fun hbelow => ?_) hn hm
  refine rule_agree Session.frame_complete hbelow @fun s t context hab hend hbound => ?_
  have hpast : 0 < s.past := by
    have := hab.ready
    omega
  exact expressionRule_proceed_atEnd Session.frame_complete hbelow hab hend
    (hab.corr.2.previous hab.tidy hend hpast) context hbound

/-! ## Runs that end -/

/-- A run ended, with a value or an error, in a tidy session over complete tokens. -/
inductive Settles : EStateM.Result Failure Session α → Prop where
  | ok {a : α} {later : Session} (tidy : later.Tidy) (complete : later.Complete) :
    Settles (.ok a later)
  | rejected {error : CompileError} {later : Session} (tidy : later.Tidy)
    (complete : later.Complete) : Settles (.error (.rejected error) later)

namespace Settles

theorem of_ok {result : EStateM.Result Failure Session α} {a : α} (h : Settles result)
    (hrun : result = .ok a later) : later.Tidy ∧ later.Complete := by
  subst hrun
  cases h with
  | ok htidy hcomplete => exact ⟨htidy, hcomplete⟩

theorem of_rejected {result : EStateM.Result Failure Session α} {error : CompileError}
    (h : Settles result) (hrun : result = .error (.rejected error) later) :
    later.Tidy ∧ later.Complete := by
  subst hrun
  cases h with
  | rejected htidy hcomplete => exact ⟨htidy, hcomplete⟩

theorem bind {p : Parser α} {f : α → Parser β} (h : Settles (p s))
    (hf : ∀ a later, later.Tidy → later.Complete → Settles (f a later)) :
    Settles ((p >>= f) s) := by
  rw [bind_run]
  generalize p s = result at h ⊢
  cases h with
  | ok htidy hcomplete => exact hf _ _ htidy hcomplete
  | rejected htidy hcomplete => exact .rejected htidy hcomplete

theorem discard {p : Parser α} (h : Settles (p s)) : Settles (discard p s) := by
  show Settles (((fun _ => ()) <$> p) s)
  rw [map_eq_pure_bind]
  exact h.bind fun _ _ => .ok

theorem forM {p : β → Parser Unit} (h : ∀ b s, Session.Tidy s → s.Complete → Settles (p b s))
    (items : List β) (hs : s.Tidy) (hc : s.Complete) : Settles (items.forM p s) := by
  induction items generalizing s with
  | nil => exact .ok hs hc
  | cons item rest ih =>
    simp only [List.forM]
    exact (h item s hs hc).bind fun _ _ => ih

end Settles

/-- A goal is read within the steps for its tokens. -/
theorem full_settles {goal : Goal α} (hgoal : ∀ steps, LeadsOn False (settle steps goal))
    (hs : s.Tidy) (hc : s.Complete) (hready : 0 < s.past + s.left) : Settles (full goal s) := by
  have hagree := settle_agree (rank_le_stepsFor goal s) (rank_le_stepsFor goal s) goal s s
    ⟨⟨rfl, hc⟩, hs, hready⟩ (Nat.lt_succ_self _)
  have hends := hgoal (stepsFor s.cursor) hs trivial
  show Settles (descend (stepsFor s.cursor) goal s)
  unfold Proceed Agree at hagree
  generalize descend (stepsFor s.cursor) goal s = x, settle (stepsFor s.cursor) goal s = y
    at hagree hends ⊢
  cases hagree with
  | ok hcorr hfwd => exact .ok hfwd.tidy hcorr.2
  | error hcorr =>
    cases hends with
    | rejected honward => exact .rejected (hcorr.1 ▸ honward.tidy hs) hcorr.2
    | unfinished hloose => exact hloose.elim

/-! ## Requests -/

/-- What a caller can ask of a parser. -/
inductive Request where
  | expression (context : Context)
  | statementBlock | program | topLevelStatement
  | synchronize
  | dropDiagnostics

/-- Does what is asked for. -/
def Request.run : Request → Parser Unit
  | expression context => discard (Parser.expression context)
  | statementBlock => discard Parser.statementBlock
  | program => discard Parser.program
  | topLevelStatement => discard Parser.topLevelStatement
  | synchronize => Parser.synchronize
  | dropDiagnostics => modify Session.dropDiagnostics

/-- The sessions over a list of tokens that requests lead to, whether they fail or not. -/
inductive Reachable (tokens : List Token) : Session → Prop where
  | start : Reachable tokens (.ofTokens tokens)
  | value {request : Request} {s later : Session} (before : Reachable tokens s)
    (run : request.run s = .ok () later) : Reachable tokens later
  | error {request : Request} {error : CompileError} {s later : Session}
    (before : Reachable tokens s) (run : request.run s = .error (.rejected error) later) :
    Reachable tokens later

/-! ## What requests preserve -/

/-- A property of sessions that is kept by whatever a request does: by moving on, by beginning a
    statement and passing over one, and by dropping notes. -/
structure Preserved (inv : Session → Prop) : Prop where
  tidy {s : Session} : inv s → s.Tidy
  onward {s later : Session} : inv s → s.Onward later → inv later
  begins {s : Session} : inv s → inv { s with statementStart := s.past }
  synchronize {s : Session} : inv s → inv s.synchronize
  dropDiagnostics {s : Session} : inv s → inv s.dropDiagnostics

section

variable {inv : Session → Prop} (kept : Preserved inv)

include kept

theorem LeadsOn.preserves {p : Parser α} (h : LeadsOn True p) (hs : inv s) : EndsIn inv (p s) :=
  (h (kept.tidy hs) trivial).endsIn fun _ => kept.onward hs

theorem topLevelStatement_preserves (hs : inv s) : EndsIn inv (topLevelStatement s) := by
  obtain ⟨pending, next, rest, h⟩ := (kept.tidy hs).exists_pending
  have hbehind : inv (s.behind pending next rest) := by
    have hskips : LeadsOn True skipSemicolons := skipSemicolons_leads
    exact kept.onward hs ((hskips (kept.tidy hs) trivial).of_ok h.skip).1
  rw [Compilation.topLevelStatement_eq h]
  split
  · exact .ok hbehind
  · exact (full_leadsAll.statement false).on.preserves kept (kept.begins hbehind)

/-- What requests preserve holds wherever they end. -/
theorem Request.preserves (request : Request) (hs : inv s) : EndsIn inv (request.run s) := by
  cases request with
  | expression context => exact ((expression_leads context).preserves kept hs).discard
  | statementBlock => exact (statementBlock_leads.preserves kept hs).discard
  | program => exact (program_leads.preserves kept hs).discard
  | topLevelStatement => exact (topLevelStatement_preserves kept hs).discard
  | synchronize => exact .ok (kept.synchronize hs)
  | dropDiagnostics => exact .ok (kept.dropDiagnostics hs)

/-- So it holds of every session that requests lead to. -/
theorem Reachable.preserved {tokens : List Token} (hstart : inv (.ofTokens tokens))
    (h : Reachable tokens s) : inv s := by
  induction h with
  | start => exact hstart
  | value _ run ih => exact (Request.preserves kept _ ih).1 _ _ run
  | error _ run ih => exact (Request.preserves kept _ ih).2 _ _ run

end

/-! ## Requests end -/

/-- Over an empty list, an expression is rejected and no statements are found. -/
theorem ready_or_empty (s : Session) :
    0 < s.past + s.left ∨
      (∀ context, ∃ error, expression context s = .error (.rejected error) s) ∧
        full .statements s = .ok [] s := by
  rcases Nat.eq_zero_or_pos (s.past + s.left) with hnone | hready
  · have hend : s.atEnd = true := Session.left_eq_zero_iff.mp (by omega)
    have heof : s.cursor.current.kind = .eof := by simpa [Session.atEnd, Cursor.atEnd] using hend
    have hpassed : s.cursor.passed = [] := List.eq_nil_of_length_eq_zero
      (show s.past = 0 by omega)
    refine .inr ⟨fun context => ⟨⟨.unexpectedEndOfInput, s.cursor.current.line⟩, ?_⟩, ?_⟩
    · have hword : s.cursor.current.isKeyword "constexpr" = false := hasForm_eof heof (by decide)
      show expressionRule (descend _) context s = _
      simp [expressionRule, hword, Session.on_advance_of_atEnd hend, Cursor.previous, hpassed,
        operand, heof]
    · have hmark : s.cursor.current.isPunctuation ";" = false := hasForm_eof heof (by decide)
      have hskip : skipSemicolons s = .ok () s := by
        show EStateM.Result.ok () (s.on fun cursor => cursor.skipWhile (·.isPunctuation ";")) = _
        simp [Session.on, Cursor.skipWhile, Cursor.ahead, hmark, Cursor.advanceBy]
      show statementsRule (descend _) s = _
      simp [statementsRule, hskip, hend]
  · exact .inl hready

theorem expression_settles (context : Context) (hs : s.Tidy) (hc : s.Complete) :
    Settles (expression context s) := by
  rcases ready_or_empty s with hready | ⟨hrejects, -⟩
  · exact full_settles (fun steps => ((settle_leadsAll steps).expression context).on) hs hc hready
  · obtain ⟨error, hrun⟩ := hrejects context
    rw [hrun]
    exact .rejected hs hc

theorem statementBlock_settles (hs : s.Tidy) (hc : s.Complete) : Settles (statementBlock s) := by
  have hstatements : Settles (full .statements s) := by
    rcases ready_or_empty s with hready | ⟨-, hrun⟩
    · exact full_settles (fun steps => (settle_leadsAll steps).statements) hs hc hready
    · rw [hrun]
      exact .ok hs hc
  unfold statementBlock block
  refine hstatements.bind fun entries later htidy hcomplete => ?_
  rw [ite_run]
  split
  · exact .ok htidy hcomplete
  · refine (Settles.forM ?_ _ htidy hcomplete).bind fun _ _ => .ok
    exact fun line s hs hc => .ok ⟨hs.closed, hs.passed⟩ hc

theorem program_settles (hs : s.Tidy) (hc : s.Complete) : Settles (program s) := by
  unfold program
  refine (statementBlock_settles hs hc).bind fun block later htidy hcomplete => ?_
  simp only [bind_run, atEnd_run, ite_run]
  split
  · exact .ok htidy hcomplete
  · exact .rejected htidy hcomplete

theorem topLevelStatement_settles (hs : s.Tidy) (hc : s.Complete) :
    Settles (topLevelStatement s) := by
  obtain ⟨pending, next, rest, h⟩ := hs.exists_pending
  have hcomplete : (s.begun pending next rest).Complete := hc.of_tokens (congrArg _ h.tokens_begun)
  have htidy := (h.forward_begun hs).tidy
  rw [Compilation.topLevelStatement_eq h]
  split
  · exact .ok ⟨htidy.closed, htidy.passed⟩ hcomplete
  next hnext =>
    exact full_settles (fun steps => ((settle_leadsAll steps).statement false).on) htidy hcomplete
      (Nat.add_pos_right _ (Session.left_pos_iff.mpr hnext))

theorem synchronize_settles (hs : s.Tidy) (hc : s.Complete) : Settles (synchronize s) := by
  show Settles (.ok () s.synchronize)
  exact .ok hs.synchronize (hc.of_tokens (congrArg _ s.tokens_synchronize))

/-- From a tidy session over complete tokens, every request ends in such a session. -/
theorem run_settles (request : Request) (hs : s.Tidy) (hc : s.Complete) :
    Settles (request.run s) := by
  cases request with
  | expression context => exact (expression_settles context hs hc).discard
  | statementBlock => exact (statementBlock_settles hs hc).discard
  | program => exact (program_settles hs hc).discard
  | topLevelStatement => exact (topLevelStatement_settles hs hc).discard
  | synchronize => exact synchronize_settles hs hc
  | dropDiagnostics => exact .ok ⟨hs.closed, hs.passed⟩ hc

/-- Requests lead only to tidy sessions over complete tokens. -/
theorem Reachable.tidy_complete {tokens : List Token} (h : Reachable tokens s)
    (hcomplete : awaitsOperand tokens = false) : s.Tidy ∧ s.Complete := by
  induction h with
  | start => exact ⟨Session.tidy_ofTokens tokens, Session.complete_ofTokens hcomplete⟩
  | value _ run ih => exact (run_settles _ ih.1 ih.2).of_ok run
  | error _ run ih => exact (run_settles _ ih.1 ih.2).of_rejected run

end Parser

/-! ## The loop of a compilation -/

namespace Compilation

variable {s : Session}

/-- A round ends. -/
theorem round_settles (budget : ℕ) (progress : Progress) (hs : s.Tidy) (hc : s.Complete) :
    round budget progress s ≠ .error .unfinished := by
  have hsettles := Parser.topLevelStatement_settles hs hc
  unfold round
  generalize Parser.topLevelStatement s = result at hsettles ⊢
  cases hsettles with
  | @ok statement later _ _ => cases statement <;> simp
  | rejected _ _ =>
    dsimp only
    split <;> simp

/-- The loop ends in more rounds than there are tokens left. -/
theorem readStatements_settles (budget : ℕ) (progress : Progress) {rounds : ℕ} (hs : s.Tidy)
    (hc : s.Complete) (h : s.left < rounds) :
    readStatements budget rounds progress s ≠ .error .unfinished := by
  induction rounds generalizing progress s with
  | zero => omega
  | succ rounds ih =>
    rw [readStatements]
    cases hmore : s.atEnd with
    | true => simp
    | false =>
      cases hround : round budget progress s with
      | error failure =>
        have hends := round_settles budget progress hs hc
        rw [hround] at hends
        simpa [bind, Except.bind] using hends
      | ok result =>
        obtain ⟨next, later⟩ := result
        have hfwd := round_forward hs hmore hround
        have hnear := hfwd.near
        exact ih next hfwd.tidy (hc.of_tokens (round_map_solid? hs hround)) (by omega)

theorem ofSession_settles (options : Options) (hs : s.Tidy) (hc : s.Complete) :
    ofSession options s ≠ .error .unfinished := by
  have hread := readStatements_settles options.errorBudget {} hs hc (left_lt_size s)
  unfold ofSession
  cases hresult : readStatements options.errorBudget (s.cursor.size + 1) {} s with
  | error failure =>
    rw [hresult] at hread
    simpa [bind, Except.bind] using hread
  | ok result => simp [bind, Except.bind, pure, Except.pure]

end Compilation

/-- Over tokens behind which no operand is missing, parsers end: whatever was asked before, and
    whether it failed or not, a request ends with a value or with an error. If it was a statement
    that failed, `synchronize` leaves the cursor behind its first token. So the loop of a
    compilation ends as well, over the tokens and over every text that has them. -/
theorem Parser.ends_of_complete {tokens : List Token} (hcomplete : awaitsOperand tokens = false) :
    (∀ s, Reachable tokens s →
      (∀ (request : Request) (later : Session), request.run s ≠ .error .unfinished later) ∧
      ∀ (error : CompileError) (later : Session),
        topLevelStatement s = .error (.rejected error) later →
          s.past ≤ later.statementStart ∧ later.statementStart < later.synchronize.past) ∧
    ∀ options, Compilation.ofSession options (.ofTokens tokens) ≠ .error .unfinished ∧
      ∀ text, Token.ofText text = .ok tokens →
        Compilation.ofText options text ≠ .error .unfinished := by
  refine ⟨fun s hreachable => ⟨fun request later hrun => ?_, fun error later hfails => ?_⟩,
    fun options => ?_⟩
  · obtain ⟨htidy, hcomplete⟩ := hreachable.tidy_complete hcomplete
    have hsettles := run_settles request htidy hcomplete
    rw [hrun] at hsettles
    cases hsettles
  · obtain ⟨htidy, -⟩ := hreachable.tidy_complete hcomplete
    obtain ⟨hstart, hsync, -⟩ := Compilation.synchronize_forward htidy hfails
    exact ⟨hstart, hsync⟩
  · have hsession := Compilation.ofSession_settles options (Session.tidy_ofTokens tokens)
      (Session.complete_ofTokens hcomplete)
    refine ⟨hsession, fun text htext => ?_⟩
    simpa [Compilation.ofText, Session.ofText, htext, Except.map] using hsession

/-- The statement `let x` breaks off where an operator must follow. It fails, and both tokens are
    passed over. -/
theorem Parser.ends_of_complete_let :
    ∃ error later,
      topLevelStatement (.ofTokens [⟨.keyword, "let", 1⟩, ⟨.identifier, "x", 1⟩]) =
        .error (.rejected error) later ∧
      later.statementStart < later.synchronize.past ∧
      ∀ options, Compilation.ofSession options
        (.ofTokens [⟨.keyword, "let", 1⟩, ⟨.identifier, "x", 1⟩]) ≠ .error .unfinished := by
  have hcomplete : awaitsOperand [⟨.keyword, "let", 1⟩, ⟨.identifier, "x", 1⟩] = false := by
    decide +kernel
  obtain ⟨hends, hloop⟩ := ends_of_complete hcomplete
  have hfails : (match topLevelStatement
      (.ofTokens [⟨.keyword, "let", 1⟩, ⟨.identifier, "x", 1⟩]) with
    | .ok _ _ => false
    | .error failure _ => failure != .unfinished) = true := by decide +kernel
  cases hrun : topLevelStatement
      (.ofTokens [⟨.keyword, "let", 1⟩, ⟨.identifier, "x", 1⟩]) with
  | ok statement later => simp [hrun] at hfails
  | error failure later =>
    cases failure with
    | unfinished => simp [hrun] at hfails
    | rejected error => exact ⟨error, later, rfl, ((hends _ .start).2 _ _ hrun).2,
      fun options => (hloop options).1⟩

end SinFrontend
