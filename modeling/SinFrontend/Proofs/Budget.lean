import Mathlib.Data.List.Forall2
import SinFrontend.Proofs.Lexing.Words
import SinFrontend.Proofs.Recovery
import SinFrontend.Proofs.Termination
import SinFrontend.Proofs.Trees.WellFormed

/-!
# The error budget cuts runs

A run in which any number of statements may fail goes on to the end of its text. The error budget
cuts such a run at the first error that it does not allow, and has no other part in it.

* `Compilation.Unlimited`, `Compilation.unlimited`: runs without a budget, and what they come to.
* `Compilation.readStatements_eq_cut`: with a budget, the loop comes to the same, or it is cut.
* `Compilation.Placed`: where a statement of a program begins in its text, and on which line.
* `Compilation.exists_starts`: the statements of a program stand in the order of the text.
* `Compilation.ofText_iff_unlimited`: these facts together, for all texts and all budgets.
-/

namespace SinFrontend

namespace Compilation

/-! ## Runs without a budget -/

/-- What a run comes to in which any number of statements may fail. -/
structure Unlimited where
  progress : Progress
  /-- The session at the end of input. It is missing if a statement is never finished. -/
  last? : Option Session

/-- Reads all statements of a session in a number of rounds, one for each statement. Each round is
    allowed one error more than there are so far. -/
def readUnlimited : ℕ → Progress → Session → Unlimited
  | 0, progress, _ => ⟨progress, none⟩
  | rounds + 1, progress, session =>
    if session.atEnd then ⟨progress, some session⟩
    else
      match round (progress.errors.length + 1) progress session with
      | .ok (progress, session) => readUnlimited rounds progress session
      | .error _ => ⟨progress, none⟩

/-- The run over the tokens of a session. -/
def unlimited (session : Session) : Unlimited :=
  readUnlimited (session.cursor.size + 1) {} session

namespace Unlimited

/-- What is returned for a run that has come to its end. -/
def output? (registersSymbols : Bool) (run : Unlimited) : Option Output :=
  run.last?.map fun last =>
    let collector := symbolsOf { registersSymbols } run.progress.program
    { program := run.progress.program,
      symbols := collector.table,
      diagnostics := diagnosticsOf run.progress last,
      errors := run.progress.errors ++ collector.errors }

/-- A run that is given up at the first error beyond a budget. -/
def cut (budget : ℕ) (run : Unlimited) : Except Failure (Progress × Session) :=
  match run.progress.errors[budget]? with
  | some error => .error (.rejected ⟨.errorBudgetExceeded (budget + 1), error.line⟩)
  | none =>
    match run.last? with
    | some last => .ok (run.progress, last)
    | none => .error .unfinished

/-- What is returned for a run with options. -/
def returned (options : Options) (run : Unlimited) : Except Failure Output :=
  match run.progress.errors[options.errorBudget]? with
  | some error => .error (.rejected ⟨.errorBudgetExceeded (options.errorBudget + 1), error.line⟩)
  | none =>
    match run.output? options.registersSymbols with
    | some output => .ok output
    | none => .error .unfinished

variable {options : Options} {run : Unlimited}

theorem returned_eq_ok_iff {output : Output} :
    run.returned options = .ok output ↔
      run.progress.errors.length ≤ options.errorBudget ∧
        run.output? options.registersSymbols = some output := by
  unfold returned
  rcases Nat.lt_or_ge options.errorBudget run.progress.errors.length with hover | hwithin
  · simp [List.getElem?_eq_getElem hover, Nat.not_le.mpr hover]
  · rw [List.getElem?_eq_none hwithin]
    cases run.output? options.registersSymbols <;> simp [hwithin]

theorem returned_eq_rejected_iff {error : CompileError} :
    run.returned options = .error (.rejected error) ↔
      ∃ beyond : options.errorBudget < run.progress.errors.length, error =
        ⟨.errorBudgetExceeded (options.errorBudget + 1),
          run.progress.errors[options.errorBudget].line⟩ := by
  unfold returned
  rcases Nat.lt_or_ge options.errorBudget run.progress.errors.length with hover | hwithin
  · rw [List.getElem?_eq_getElem hover]
    simp [hover, eq_comm]
  · rw [List.getElem?_eq_none hwithin]
    cases run.output? options.registersSymbols <;> simp [Nat.not_lt.mpr hwithin]

theorem isSome_output? (registersSymbols : Bool) :
    (run.output? registersSymbols).isSome = run.last?.isSome :=
  Option.isSome_map

end Unlimited

/-! ## Cutting a run -/

variable {budget rounds met : ℕ} {progress next last : Progress} {s session later : Session}
  {tokens : List Token} {statement : Statement} {options : Options}

/-- A round ends in the same way with every budget that is not used up yet, unless its statement is
    the first to fail beyond the budget. -/
theorem round_cut (budget : ℕ) (s : Session) (hmet : progress.errors.length ≤ budget) :
    (∃ next later, round (progress.errors.length + 1) progress s = .ok (next, later) ∧
      ((next.errors.length ≤ budget ∧ round budget progress s = .ok (next, later)) ∨
        ∃ error, next.errors[budget]? = some error ∧
          round budget progress s =
            .error (.rejected ⟨.errorBudgetExceeded (budget + 1), error.line⟩))) ∨
    (∃ failure, round (progress.errors.length + 1) progress s = .error failure) ∧
      round budget progress s = .error .unfinished := by
  unfold round
  cases Parser.topLevelStatement s with
  | ok read later =>
    cases read with
    | some statement => exact .inl ⟨_, _, rfl, .inl ⟨hmet, rfl⟩⟩
    | none => exact .inl ⟨_, _, rfl, .inl ⟨by split <;> exact hmet, rfl⟩⟩
  | error failure failed =>
    cases failure with
    | unfinished => exact .inr ⟨⟨_, rfl⟩, rfl⟩
    | rejected error =>
      refine .inl ⟨{ progress with errors := progress.errors ++ [error] }, failed.synchronize,
        by simp, ?_⟩
      rcases Nat.lt_or_ge budget (progress.errors.length + 1) with hover | hwithin
      · obtain rfl : progress.errors.length = budget := by omega
        exact .inr ⟨error, by simp, by simp⟩
      · exact .inl ⟨by simpa using hwithin, by simp [Nat.not_lt.mpr hwithin]⟩

/-- Without a budget, errors that were met are kept as well. -/
theorem readUnlimited_errors (rounds : ℕ) (progress : Progress) (s : Session) :
    progress.errors <+: (readUnlimited rounds progress s).progress.errors := by
  induction rounds generalizing progress s with
  | zero => exact List.prefix_rfl
  | succ rounds ih =>
    rw [readUnlimited]
    split
    · exact List.prefix_rfl
    · split
      next hround => exact (round_errors hround).trans (ih _ _)
      next => exact List.prefix_rfl

/-- With a budget, the loop comes to what it comes to without one, cut at the error that is too
    much. -/
theorem readStatements_eq_cut (rounds : ℕ) (s : Session)
    (hmet : progress.errors.length ≤ budget) :
    readStatements budget rounds progress s = (readUnlimited rounds progress s).cut budget := by
  have hwithin {progress : Progress} (hmet : progress.errors.length ≤ budget) :
      progress.errors[budget]? = none := List.getElem?_eq_none hmet
  induction rounds generalizing progress s with
  | zero => simp [readStatements, readUnlimited, Unlimited.cut, hwithin hmet]
  | succ rounds ih =>
    rw [readStatements, readUnlimited]
    cases hmore : s.atEnd with
    | true => simp [Unlimited.cut, hwithin hmet]
    | false =>
      rcases round_cut budget s hmet with
        ⟨next, later, hfree, ⟨hnext, hround⟩ | ⟨error, herror, hround⟩⟩ | ⟨⟨failure, hfree⟩, hround⟩
      · simp only [hfree, hround, Bool.false_eq_true, if_false]
        exact ih later hnext
      · -- the error stays where it is among those of the whole run
        have hkept := readUnlimited_errors rounds next later
        have hlast : (readUnlimited rounds next later).progress.errors[budget]? = some error := by
          obtain ⟨others, hothers⟩ := hkept
          obtain ⟨hlt, -⟩ := List.getElem?_eq_some_iff.mp herror
          rw [← hothers, List.getElem?_append_left hlt, herror]
        simp only [hfree, hround, Bool.false_eq_true, if_false, Unlimited.cut, hlast]
        rfl
      · simp only [hfree, hround, Bool.false_eq_true, if_false, Unlimited.cut, hwithin hmet]
        rfl

/-- A run over a session returns what the run without a budget comes to, cut by its budget. -/
theorem ofSession_eq_returned (options : Options) (session : Session) :
    ofSession options session = (unlimited session).returned options := by
  have hcut : readStatements options.errorBudget (session.cursor.size + 1) {} session =
      (unlimited session).cut options.errorBudget :=
    readStatements_eq_cut _ session (Nat.zero_le _)
  rw [ofSession, hcut]
  unfold Unlimited.cut Unlimited.returned Unlimited.output?
  split
  · rfl
  · cases (unlimited session).last? <;> rfl

/-! ## Places of statements -/

/-- A token that is not a closing bracket is the same wherever the parser has come. -/
theorem getElem?_of_map_solid? {tokens other : List Token} {token : Token} {place : ℕ}
    (hsame : other.map Token.solid? = tokens.map Token.solid?)
    (hsolid : Parser.isClosingAngle token = false) (h : other[place]? = some token) :
    tokens[place]? = some token := by
  have hmap : (tokens.map Token.solid?)[place]? = some (some token) := by
    rw [← hsame, List.getElem?_map, h, Option.map_some, Token.solid?, hsolid]
    rfl
  rw [List.getElem?_map, Option.map_eq_some_iff] at hmap
  obtain ⟨found, hfound, hsolid⟩ := hmap
  unfold Token.solid? at hsolid
  split at hsolid
  · cases hsolid
  · cases hsolid
    exact hfound

/-- No statement begins with a closing bracket. -/
theorem isClosingAngle_of_statementRule {parse : Descent} {isParameter : Bool}
    {read : Option Statement} (h : Parser.statementRule parse isParameter s = .ok read later) :
    Parser.isClosingAngle (s.on .advance).cursor.previous = false := by
  obtain ⟨token, middle, hfirst, h⟩ := Parser.exists_of_bind h
  cases hfirst
  rw [Bool.eq_false_iff]
  intro hangle
  simp only [Parser.isClosingAngle, Bool.and_eq_true, beq_iff_eq] at hangle
  obtain ⟨⟨hkind, -⟩, hall⟩ := hangle
  have hcall : (s.on .advance).cursor.previous.isOperator Operator.controlTransfer.symbol =
      false := by
    rw [Bool.eq_false_iff]
    intro hat
    simp only [Token.isOperator, Token.hasForm, Bool.and_eq_true, beq_iff_eq] at hat
    rw [hat.2] at hall
    exact absurd hall (by decide)
  have hopening : (s.on .advance).cursor.previous.isPunctuation Grouping.brace.opening = false := by
    simp [Token.isPunctuation, Token.hasForm, hkind]
  simp only [Session.on] at hkind hcall hopening
  simp [hkind, hcall, hopening, Parser.reject] at h

/-- A statement begins behind semicolons, if any, with a token that stays as it is. It reaches
    beyond this token and stands on its line. -/
theorem topLevelStatement_place (hs : s.Tidy)
    (h : Parser.topLevelStatement s = .ok (some statement) later) :
    s.past ≤ later.statementStart ∧ later.statementStart < later.past ∧
      ∃ token, s.cursor.tokens[later.statementStart]? = some token ∧
        Parser.isClosingAngle token = false ∧ statement.line = token.line := by
  obtain ⟨pending, token, rest, hpending⟩ := hs.exists_pending
  by_cases htoken : token.kind = .eof
  · rw [topLevelStatement_eq hpending, if_pos htoken] at h
    cases h
  have hbegun := hpending.forward_begun hs
  have hfirst := Session.Forward.advance hbegun.tidy htoken
  have honward := ((topLevelStatement_onward hs hpending htoken).of_ok h).1
  have hstart : later.statementStart = (s.begun pending token rest).past := honward.statementStart
  have hprevious := hbegun.tidy.advance_previous htoken
  obtain ⟨steps, hread⟩ : ∃ steps, Parser.statementRule (Parser.descend steps) false
      (s.begun pending token rest) = .ok (some statement) later := by
    rw [topLevelStatement_eq hpending, if_neg htoken] at h
    exact ⟨_, h⟩
  have hmade := Parser.made_statementRule Session.kept_true Node.statementsInherit_proper
    (Parser.makesAll_descend Session.kept_true Node.statementsInherit_proper _) trivial hread
  have hpast := hbegun.past_le
  have hpast' := (hfirst.trans (honward.forward hfirst.tidy)).past_le
  refine ⟨by omega, by omega, token, ?_, ?_, ?_⟩
  · rw [hstart, ← hpending.tokens_begun]
    exact Session.getElem?_past _
  · rw [← isClosingAngle_of_statementRule hread, hprevious]
    rfl
  · rw [(hmade.1 statement rfl).line_eq, hprevious]
    rfl

/-- In a round of a run over a text, a statement was read whose first token is the one at `start`.
    The statement stands on the line of this token. -/
structure Placed (budget : ℕ) (tokens : List Token) (statement : Statement) (start : ℕ) :
    Prop where
  read : ∃ rounds progress here later, Reaches budget rounds {} (.ofTokens tokens) progress here ∧
    here.atEnd = false ∧ Parser.topLevelStatement here = .ok (some statement) later ∧
    here.past ≤ start ∧ later.statementStart = start ∧ start < later.past
  line : ∃ token, tokens[start]? = some token ∧ statement.line = token.line

theorem placed_of_reaches (hreaches : Reaches budget rounds {} (.ofTokens tokens) progress s)
    (htokens : (Session.ofTokens tokens).cursor.tokens = tokens) (hmore : s.atEnd = false)
    (hread : Parser.topLevelStatement s = .ok (some statement) later) :
    Placed budget tokens statement later.statementStart := by
  have htidy := Session.tidy_ofTokens tokens
  obtain ⟨hbehind, hbeyond, token, htoken, hsolid, hline⟩ :=
    topLevelStatement_place (hreaches.forward htidy).tidy hread
  refine ⟨⟨rounds, progress, s, later, hreaches, hmore, hread, hbehind, rfl, hbeyond⟩, token, ?_,
    hline⟩
  have hsame := hreaches.map_solid? htidy
  rw [htokens] at hsame
  exact getElem?_of_map_solid? hsame hsolid htoken

/-- What the loop reads from one of its heads on begins there or further on, each statement behind
    the one before it. -/
theorem exists_starts_of_reaches (htokens : (Session.ofTokens tokens).cursor.tokens = tokens)
    (hbefore : Reaches budget met {} (.ofTokens tokens) progress s)
    (hreaches : Reaches budget rounds progress s last later) :
    ∃ statements starts, last.program.statements = progress.program.statements ++ statements ∧
      (∀ start ∈ starts, s.past ≤ start) ∧ starts.Pairwise (· < ·) ∧
      List.Forall₂ (Placed budget tokens) statements starts := by
  induction hreaches generalizing met with
  | refl => exact ⟨[], [], (List.append_nil _).symm, List.forall_mem_nil _, .nil, .nil⟩
  | @round _ progress next last s middle later more first _ ih =>
    have hs := (hbefore.forward (Session.tidy_ofTokens tokens)).tidy
    have hpast := (round_forward hs more first).past_le
    obtain ⟨statements, starts, hprogram, hfrom, horder, hplaced⟩ :=
      ih (hbefore.trans (.round more first .refl))
    have hfrom' : ∀ start ∈ starts, s.past ≤ start := fun start hmem =>
      (Nat.le_of_succ_le hpast).trans (hfrom start hmem)
    rcases round_cases first with ⟨_ | statement, hread, -, hnext⟩ | ⟨_, _, -, -, rfl, -⟩
    · rw [hnext] at hprogram
      exact ⟨statements, starts, hprogram, hfrom', horder, hplaced⟩
    · have hhere := placed_of_reaches hbefore htokens more hread
      obtain ⟨hbehind, hbeyond, -⟩ := topLevelStatement_place hs hread
      refine ⟨statement :: statements, middle.statementStart :: starts, ?_,
        List.forall_mem_cons.mpr ⟨hbehind, hfrom'⟩, ?_, .cons hhere hplaced⟩
      · rw [hprogram, hnext]
        simp [Block.push]
      · exact .cons (fun start hmem => hbeyond.trans_le (hfrom start hmem)) horder
    · exact ⟨statements, starts, hprogram, hfrom', horder, hplaced⟩

/-- The statements that a run over a text has read begin at places of the text in increasing
    order. -/
theorem exists_starts {output : Output}
    (htokens : (Session.ofTokens tokens).cursor.tokens = tokens)
    (hrun : ofSession options (.ofTokens tokens) = .ok output) :
    ∃ starts, starts.Pairwise (· < ·) ∧
      List.Forall₂ (Placed options.errorBudget tokens) output.program.statements starts := by
  obtain ⟨rounds, last, later, hreaches, hlast⟩ := reaches_of_ofSession hrun
  obtain ⟨statements, starts, hprogram, -, horder, hplaced⟩ :=
    exists_starts_of_reaches htokens .refl hreaches
  refine ⟨starts, horder, ?_⟩
  rw [hlast, hprogram]
  exact hplaced

/-- Statements at places in increasing order stand on lines that do not go back. -/
theorem lines_of_placed {statements : List Statement} {starts : List ℕ}
    (hlines : tokens.Pairwise fun first later => first.line ≤ later.line)
    (horder : starts.Pairwise (· < ·))
    (hplaced : List.Forall₂ (Placed budget tokens) statements starts) :
    statements.Pairwise fun first later => first.line ≤ later.line := by
  induction hplaced with
  | nil => exact .nil
  | @cons statement start statements starts hhere hplaced ih =>
    obtain ⟨hfirst, horder⟩ := List.pairwise_cons.mp horder
    refine .cons (fun later hmem => ?_) (ih horder)
    obtain ⟨place, hplace, hlater⟩ : ∃ place ∈ starts, Placed budget tokens later place := by
      obtain ⟨i, hi, rfl⟩ := List.getElem_of_mem hmem
      have hi' : i < starts.length := hplaced.length_eq ▸ hi
      exact ⟨starts[i], List.getElem_mem hi', hplaced.get hi hi'⟩
    obtain ⟨token, htoken, hline⟩ := hhere.line
    obtain ⟨other, hother, hline'⟩ := hlater.line
    obtain ⟨hlt, rfl⟩ := List.getElem?_eq_some_iff.mp htoken
    obtain ⟨hlt', rfl⟩ := List.getElem?_eq_some_iff.mp hother
    rw [hline, hline']
    exact List.pairwise_iff_getElem.mp hlines start place hlt hlt' (hfirst place hplace)

/-! ## Texts -/

/-- Without a budget, a run comes to its end unless an operand is missing at the end of input. -/
theorem isSome_last?_unlimited (hcomplete : awaitsOperand tokens = false) :
    (unlimited (.ofTokens tokens)).last?.isSome = true := by
  have hends := ofSession_settles
    { errorBudget := (unlimited (.ofTokens tokens)).progress.errors.length }
    (Session.tidy_ofTokens tokens) (Session.complete_ofTokens hcomplete)
  cases hlast : (unlimited (.ofTokens tokens)).last? with
  | some last => rfl
  | none => simp [ofSession_eq_returned, Unlimited.returned, Unlimited.output?, hlast] at hends

/-- The error budget cuts a run and never changes it. A text with tokens is run over without a
    budget up to its end, unless an operand is missing there, and some of its statements fail. With
    a budget, the same is returned if no more statements fail than it allows, however many symbols
    clash, and otherwise the run is given up at the first error that is too much. The statements
    that are returned begin at places of the text in increasing order, and their lines do not go
    back. -/
theorem ofText_iff_unlimited {text : String} (htext : Token.ofText text = .ok tokens)
    (options : Options) :
    let run := unlimited (.ofTokens tokens)
    let failed := run.progress.errors
    (awaitsOperand tokens = false → run.last?.isSome = true) ∧
    (run.last?.isSome = true →
      ((∃ output, ofText options text = .ok output) ↔ failed.length ≤ options.errorBudget)) ∧
    (∀ output, ofText options text = .ok output ↔
      failed.length ≤ options.errorBudget ∧
        run.output? options.registersSymbols = some output) ∧
    (∀ error, ofText options text = .error (.rejected error) ↔
      ∃ beyond : options.errorBudget < failed.length, error =
        ⟨.errorBudgetExceeded (options.errorBudget + 1), failed[options.errorBudget].line⟩) ∧
    ∀ output, ofText options text = .ok output →
      (∃ starts, starts.Pairwise (· < ·) ∧
        List.Forall₂ (Placed options.errorBudget tokens) output.program.statements starts) ∧
      output.program.statements.Pairwise fun first later => first.line ≤ later.line := by
  intro run failed
  have hrun : ofText options text = run.returned options := by
    rw [ofText_of_tokens htext, ofSession_eq_returned]
  refine ⟨isSome_last?_unlimited, fun hends => ⟨?_, fun hwithin => ?_⟩, fun output => ?_,
    fun error => ?_, fun output hreturns => ?_⟩
  · rintro ⟨output, hreturns⟩
    exact (Unlimited.returned_eq_ok_iff.mp (hrun ▸ hreturns)).1
  · rw [← Unlimited.isSome_output? options.registersSymbols, Option.isSome_iff_exists] at hends
    obtain ⟨output, houtput⟩ := hends
    exact ⟨output, hrun.trans (Unlimited.returned_eq_ok_iff.mpr ⟨hwithin, houtput⟩)⟩
  · rw [hrun]
    exact Unlimited.returned_eq_ok_iff
  · rw [hrun]
    exact Unlimited.returned_eq_rejected_iff
  · have htokens : (Session.ofTokens tokens).cursor.tokens = tokens :=
      (Source.sealed_tokens htext).tokens_ofTokens
    rw [hrun, ← ofSession_eq_returned] at hreturns
    obtain ⟨starts, horder, hplaced⟩ := exists_starts htokens hreturns
    exact ⟨⟨starts, horder, hplaced⟩,
      lines_of_placed (Token.lines_ofText htext) horder hplaced⟩

/-- Two statements of this text fail, and its symbols clash once. A budget of one is too small, and
    a budget of two is not. -/
theorem ofText_iff_unlimited_twice :
    ∃ tokens output,
      Token.ofText "alloc int x: 1;\nlet ;\nalloc int x: 2;\nlet ;" = .ok tokens ∧
      ((unlimited (.ofTokens tokens)).progress.errors.map (·.line)) = [2, 4] ∧
      ofText { errorBudget := 1 } "alloc int x: 1;\nlet ;\nalloc int x: 2;\nlet ;" =
        .error (.rejected ⟨.errorBudgetExceeded 2, 4⟩) ∧
      ofText { errorBudget := 2 } "alloc int x: 1;\nlet ;\nalloc int x: 2;\nlet ;" = .ok output ∧
      output.errors.length = 3 ∧
      output.program.statements.Pairwise fun first later => first.line ≤ later.line := by
  obtain ⟨text, htext⟩ : ∃ text, text = "alloc int x: 1;\nlet ;\nalloc int x: 2;\nlet ;" := ⟨_, rfl⟩
  have hruns : (match Token.ofText text with
      | .error _ => false
      | .ok tokens =>
        let run := unlimited (.ofTokens tokens)
        run.progress.errors.map (·.line) == [2, 4] &&
          (run.output? true).map (·.errors.length) == some 3) = true := by
    rw [htext]
    decide +kernel
  rw [← htext]
  split at hruns
  next => cases hruns
  next tokens htokens =>
    simp only [Bool.and_eq_true, beq_iff_eq, Option.map_eq_some_iff] at hruns
    obtain ⟨hfailed, output, houtput, hclash⟩ := hruns
    have hlength : (unlimited (.ofTokens tokens)).progress.errors.length = 2 := by
      rw [← List.length_map, hfailed]
      rfl
    obtain ⟨-, -, -, hsmall, -⟩ := ofText_iff_unlimited htokens { errorBudget := 1 }
    obtain ⟨-, -, hlarge, -, hplaced⟩ := ofText_iff_unlimited htokens { errorBudget := 2 }
    have hrun := (hlarge output).mpr ⟨hlength.le, houtput⟩
    refine ⟨tokens, output, htokens, hfailed, ?_, hrun, hclash, (hplaced output hrun).2⟩
    refine (hsmall _).mpr ⟨hlength.symm ▸ Nat.one_lt_two, ?_⟩
    have hline := List.getElem_of_eq hfailed (i := 1) (by simp [hlength])
    rw [List.getElem_map] at hline
    simp [hline]

end Compilation

end SinFrontend
