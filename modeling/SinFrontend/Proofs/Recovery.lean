import SinFrontend.Proofs.Lexing.Accounts
import SinFrontend.Proofs.Synchronization

/-!
# A failed statement does not touch the others

The loop over the statements of a text is at each of its heads like a loop that begins there: what
it finds from then on depends only on the tokens ahead. If a statement fails within tokens up to a
semicolon, without any brace among them, the loop goes on exactly behind that semicolon.

* `Session.Trails`: two sessions over the same tokens ahead.
* `Compilation.round_trails`, `Compilation.readStatements_trails`: such sessions are read alike.
* `Session.Onward.drop_tokens`: a reading that comes no further than a semicolon leaves the tokens
  behind it as they are.
* `Compilation.readAll_isolates`: both facts, for a whole run.
-/

namespace SinFrontend

/-! ## Tokens of a text -/

/-- The class of a token shows even if closing brackets may be taken off it. -/
theorem kind_eq_solid? (token : Token) :
    token.kind = ((Token.solid? token).map (·.kind)).getD .operator := by
  unfold Token.solid?
  split
  next hangle =>
    exact Parser.kind_of_isClosingAngle hangle
  next => rfl

/-- So does whether it is a given punctuation mark. -/
theorem isPunctuation_of_solid? {token other : Token}
    (h : Token.solid? token = Token.solid? other) (mark : String) :
    token.isPunctuation mark = other.isPunctuation mark :=
  hasForm_of_solid? h (by decide) mark

/-- The last token, and no other one, is an end of input. -/
structure Sealed (tokens : List Token) : Prop where
  inside : Token.Kind.eof ∉ (tokens.map (·.kind)).dropLast
  last : (tokens.map (·.kind)).getLast? = some .eof

namespace Sealed

variable {tokens other before ahead : List Token}

theorem of_map_solid? (h : Sealed tokens)
    (hsame : other.map Token.solid? = tokens.map Token.solid?) : Sealed other := by
  have hkind (tokens : List Token) : tokens.map (·.kind) =
      (tokens.map Token.solid?).map fun solid => (solid.map (·.kind)).getD .operator := by
    rw [List.map_map]
    exact List.map_congr_left fun token _ => kind_eq_solid? token
  have hkinds : other.map (·.kind) = tokens.map (·.kind) := by rw [hkind, hsame, ← hkind]
  exact ⟨hkinds ▸ h.inside, hkinds ▸ h.last⟩

theorem of_append (h : Sealed (before ++ ahead)) (hne : ahead ≠ []) : Sealed ahead := by
  obtain ⟨hinside, hlast⟩ := h
  have hmap : ahead.map (·.kind) ≠ [] := by simpa using hne
  rw [List.map_append, List.dropLast_append_of_ne_nil hmap] at hinside
  rw [List.map_append, List.getLast?_append_of_ne_nil _ hmap] at hlast
  exact ⟨fun hmem => hinside (List.mem_append_right _ hmem), hlast⟩

/-- What lies before other tokens is no end of input. -/
theorem kind_ne_eof {token : Token} (h : Sealed (before ++ ahead)) (hne : ahead ≠ [])
    (hmem : token ∈ before) : token.kind ≠ .eof := by
  intro heof
  refine h.inside ?_
  rw [List.map_append, List.dropLast_append_of_ne_nil (by simpa using hne)]
  exact List.mem_append_left _ (List.mem_map.mpr ⟨token, hmem, heof⟩)

/-- A session over sealed tokens stands over just these tokens. -/
theorem cursor_ofTokens {current : Token} {rest : List Token} (h : Sealed (current :: rest)) :
    (Session.ofTokens (current :: rest)).cursor = ⟨[], current, rest⟩ := by
  have hlast := h.last
  rw [List.getLast?_map, List.getLast?_cons, Option.map_some, Option.some_inj] at hlast
  simp [Session.ofTokens, Cursor.ofTokens, hlast]

theorem tokens_ofTokens (h : Sealed tokens) : (Session.ofTokens tokens).cursor.tokens = tokens := by
  cases tokens with
  | nil => cases h.last
  | cons first rest =>
    rw [h.cursor_ofTokens]
    rfl

end Sealed

theorem Source.sealed_tokens {source : Source} {tokens : List Token}
    (h : source.tokens = .ok tokens) : Sealed tokens := by
  induction source using Source.tokens.induct generalizing tokens with
  | case1 source error after hread =>
    rw [Source.tokens] at h
    split at h <;> simp_all
  | case2 source token after hread hmore ih =>
    rw [tokens_of_nextToken hread, if_pos hmore] at h
    cases hrest : after.tokens with
    | error error => simp [hrest, Except.map] at h
    | ok others =>
      obtain rfl : token :: others = tokens := by simpa [hrest, Except.map] using h
      obtain ⟨hinside, hlast⟩ := ih hrest
      have hne : others ≠ [] := by
        rintro rfl
        cases hlast
      have hmap : others.map (·.kind) ≠ [] := by simpa using hne
      refine ⟨?_, ?_⟩
      · rw [List.map_cons, List.dropLast_cons_of_ne_nil hmap, List.mem_cons, not_or]
        exact ⟨hmore.symm, hinside⟩
      · rw [List.map_cons, List.getLast?_cons, hlast]
        rfl
  | case3 source token after hread hmore =>
    rw [tokens_of_nextToken hread, if_neg hmore] at h
    obtain rfl : [token] = tokens := by simpa using h
    exact ⟨by simp, by simpa using hmore⟩

namespace Session

variable {s t base later : Session} {before : List Token}

theorem sealed_ofText {text : String} (h : Session.ofText text = .ok s) :
    Sealed s.cursor.tokens := by
  obtain ⟨tokens, htokens, rfl⟩ := exists_tokens_of_ofText h
  have hsealed : Sealed tokens := Source.sealed_tokens htokens
  exact hsealed.tokens_ofTokens.symm ▸ hsealed

/-! ## Sessions with the same tokens ahead -/

/-- A session stands over the same tokens as another one, with more tokens before them. What was
    noted and where the last statement began plays no part. -/
def Trails (before : List Token) (s t : Session) : Prop :=
  t.cursor = (s.after before).cursor

theorem frame_trails (before : List Token) : Session.Frame (Trails before) where
  ahead h := by
    rw [h]
    rfl
  previous h hpast := by
    rw [h]
    exact (frame_after before).previous rfl hpast
  advance {s t} h := by
    have hmoved := (frame_after before).advance (s := s) rfl
    exact (congrArg Cursor.advance h).trans (congrArg Session.cursor hmoved)
  retreat {s t} h hpast := by
    have hmoved := (frame_after before).retreat (s := s) rfl hpast
    exact (congrArg Cursor.retreat h).trans (congrArg Session.cursor hmoved)
  split h _ _ _ _ _ := congrArg (Cursor.replaceText · _) h
  record h _ := h

/-- Where the last statement began may be kept in step as well. -/
theorem frame_trails_start (before : List Token) : Session.Frame fun s t =>
    Trails before s t ∧ t.statementStart = s.statementStart + before.length where
  ahead h := (frame_trails before).ahead h.1
  previous h hpast := (frame_trails before).previous h.1 hpast
  advance h := ⟨(frame_trails before).advance h.1, h.2⟩
  retreat h hpast := ⟨(frame_trails before).retreat h.1 hpast, h.2⟩
  split h hangle _ _ htext hmore := ⟨(frame_trails before).split h.1 hangle htext hmore, h.2⟩
  record h diagnostic := ⟨(frame_trails before).record h.1 diagnostic, h.2⟩

theorem Trails.past (h : Trails before s t) : t.past = s.past + before.length := by
  rw [Session.past, h]
  simp [Session.after, Session.on, Session.past]

theorem Trails.left (h : Trails before s t) : t.left = s.left := by
  rw [Session.left, Session.left, (frame_trails before).ahead h]

theorem Trails.atEnd (h : Trails before s t) : t.atEnd = s.atEnd := by
  rw [Session.atEnd, h]
  rfl

theorem Trails.advanceBy (h : Trails before s t) (count : ℕ) :
    Trails before (s.on (·.advanceBy count)) (t.on (·.advanceBy count)) := by
  induction count generalizing s t with
  | zero => exact h
  | succ count ih => exact ih ((frame_trails before).advance h)

theorem Trails.retreatTo (h : Trails before s t) (count : ℕ) :
    Trails before (s.on (·.retreatTo count)) (t.on (·.retreatTo (count + before.length))) := by
  suffices hgo : ∀ (steps : ℕ) {s t : Session}, steps ≤ s.past → Trails before s t →
      Trails before (s.on (Cursor.retreatTo.go steps)) (t.on (Cursor.retreatTo.go steps)) by
    have hsame : t.cursor.passed.length - (count + before.length) =
        s.cursor.passed.length - count := by
      have := h.past
      unfold Session.past at this
      omega
    have hmoved := hgo (s.cursor.passed.length - count) (Nat.sub_le _ _) h
    rw [Session.on, Session.on, Cursor.retreatTo, Cursor.retreatTo, hsame]
    exact hmoved
  intro steps
  induction steps with
  | zero => exact fun _ h => h
  | succ steps ih =>
    intro s t hsteps h
    have hpast : (s.on .retreat).past + 1 = s.past := by
      obtain ⟨last, passed, hpassed⟩ := List.exists_cons_of_length_pos
        (show 0 < s.cursor.passed.length from Nat.lt_of_lt_of_le (Nat.succ_pos _) hsteps)
      simp [Session.past, Session.on, Cursor.retreat, hpassed]
    exact ih (by omega) ((frame_trails before).retreat h (by omega))

/-- Both sessions pass over a failed statement alike. -/
theorem Trails.synchronize (h : Trails before s t)
    (hstart : t.statementStart = s.statementStart + before.length) :
    Trails before s.synchronize t.synchronize := by
  have hback := h.retreatTo s.statementStart
  rw [← hstart] at hback
  show Trails before
    ((s.on (·.retreatTo s.statementStart)).on (·.advanceBy (Cursor.statementLength 0
      (s.on (·.retreatTo s.statementStart)).cursor.ahead)))
    ((t.on (·.retreatTo t.statementStart)).on (·.advanceBy (Cursor.statementLength 0
      (t.on (·.retreatTo t.statementStart)).cursor.ahead)))
  rw [← (frame_trails before).ahead hback]
  exact hback.advanceBy _

end Session

namespace Compilation

/-! ## Two loops over the same tokens ahead -/

/-- All statements of a session, read in as many rounds as it may need. -/
def readAll (budget : ℕ) (session : Session) : Except Failure (Progress × Session) :=
  readStatements budget (session.cursor.size + 1) {} session

/-- What was read and met in two runs, one after the other. -/
def Progress.append (earlier later : Progress) : Progress where
  program := {
    statements := earlier.program.statements ++ later.program.statements,
    hasReturn := earlier.program.hasReturn || later.program.hasReturn }
  errors := earlier.errors ++ later.errors
  passes := earlier.passes ++ later.passes

/-- The failure of a run that goes on behind a number of errors, given how it fails on its own. -/
def countingFrom (met : ℕ) : Failure → Failure
  | .rejected ⟨.errorBudgetExceeded count, line⟩ =>
    .rejected ⟨.errorBudgetExceeded (met + count), line⟩
  | failure => failure

/-- The end of a run that goes on behind an earlier one, given how it ends on its own. -/
def behind (earlier : Progress) : Except Failure Progress → Except Failure Progress
  | .ok later => .ok (earlier.append later)
  | .error failure => .error (countingFrom earlier.errors.length failure)

variable {budget : ℕ} {progress earlier next : Progress} {s t later : Session}
  {before : List Token}

@[simp] theorem Progress.append_empty (earlier : Progress) : earlier.append {} = earlier := by
  obtain ⟨⟨statements, hasReturn⟩, errors, passes⟩ := earlier
  simp [Progress.append, Block.empty]

theorem Progress.append_push (earlier progress : Progress) (statement : Statement) :
    (earlier.append { progress with program := progress.program.push statement }) =
      { earlier.append progress with
        program := (earlier.append progress).program.push statement } := by
  simp [Progress.append, Block.push, Bool.or_assoc]

/-- From both sessions the same statement is read, or the same failure is met and passed over. -/
theorem topLevelStatement_trails (h : s.Trails before t) (hs : s.Tidy) (hmore : s.atEnd = false) :
    (∃ statement s' t', Parser.topLevelStatement s = .ok statement s' ∧
      Parser.topLevelStatement t = .ok statement t' ∧ s'.Trails before t' ∧ 0 < s'.past) ∨
    ∃ failure s' t', Parser.topLevelStatement s = .error failure s' ∧
      Parser.topLevelStatement t = .error failure t' ∧
      s'.synchronize.Trails before t'.synchronize := by
  obtain ⟨pending, token, rest, hpending⟩ := hs.exists_pending
  have hahead := (Session.frame_trails before).ahead h
  have hpending' : t.Pending pending token rest :=
    ⟨hahead ▸ hpending.ahead, hpending.semicolons, hpending.other⟩
  have hbegun : (s.begun pending token rest).Trails before (t.begun pending token rest) := by
    have hpassed : t.cursor.passed = s.cursor.passed ++ before := by
      rw [h]
      rfl
    simp [Session.Trails, Session.after, Session.on, Session.between, Cursor.between, hpassed]
  have hfwd := hpending.forward_begun hs
  rw [topLevelStatement_eq hpending, topLevelStatement_eq hpending']
  by_cases htoken : token.kind = .eof
  · rw [if_pos htoken, if_pos htoken]
    have hpast := hfwd.past_le
    have hlength := List.length_pos_iff.mpr (hpending.ne_nil hmore htoken)
    exact .inl ⟨none, _, _, rfl, rfl, hbegun, show 0 < (s.begun pending token rest).past by omega⟩
  · rw [if_neg htoken, if_neg htoken]
    have hleft : 0 < (s.begun pending token rest).left := Session.left_pos_iff.mpr htoken
    have hstart : (t.begun pending token rest).statementStart =
        (s.begun pending token rest).statementStart + before.length := hbegun.past
    have hsteps := Parser.rank_le_stepsFor (.statement false) (t.begun pending token rest)
    rw [hbegun.left] at hsteps
    have halike : Parser.EndsAlike _ _
        (Parser.full (.statement false) (s.begun pending token rest))
        (Parser.full (.statement false) (t.begun pending token rest)) :=
      Parser.descend_agree (Session.frame_trails_start before)
        (Parser.rank_le_stepsFor (.statement false) (s.begun pending token rest)) hsteps
        (.statement false) _ _ ⟨⟨hbegun, hstart⟩, hfwd.tidy, by omega⟩ (Nat.lt_succ_self _)
    generalize Parser.full (.statement false) (s.begun pending token rest) = x,
      Parser.full (.statement false) (t.begun pending token rest) = y at halike ⊢
    cases halike with
    | ok hc hread =>
      have hpast := hread.past_le
      simp only [Goal.length] at hpast
      exact .inl ⟨_, _, _, rfl, rfl, hc.1, by omega⟩
    | error hc => exact .inr ⟨_, _, _, rfl, rfl, hc.1.synchronize hc.2⟩

/-- A round leads both loops to the same progress and to the same tokens ahead, or ends both. -/
theorem round_trails (progress : Progress) (h : s.Trails before t) (hs : s.Tidy)
    (hmore : s.atEnd = false) (hbudget : earlier.errors.length ≤ budget) :
    (∃ next s' t', round (budget - earlier.errors.length) progress s = .ok (next, s') ∧
      round budget (earlier.append progress) t = .ok (earlier.append next, t') ∧
      s'.Trails before t') ∨
    ∃ failure, round (budget - earlier.errors.length) progress s = .error failure ∧
      round budget (earlier.append progress) t =
        .error (countingFrom earlier.errors.length failure) := by
  rcases topLevelStatement_trails h hs hmore with
    ⟨statement, s', t', hrun, hrun', htrails, hpast⟩ | ⟨failure, s', t', hrun, hrun', htrails⟩
  · have hprevious := (Session.frame_trails before).previous htrails hpast
    cases statement with
    | some statement =>
      refine .inl ⟨{ progress with program := progress.program.push statement }, s', t', ?_, ?_,
        htrails⟩
      · simp [round, hrun]
      · simp [round, hrun', Progress.append_push]
    | none =>
      refine .inl ⟨if s'.cursor.previous.isKeyword "pass" then
        { progress with passes := progress.passes ++ [s'.cursor.previous.line] } else progress,
        s', t', ?_, ?_, htrails⟩
      · simp [round, hrun]
      · simp only [round, hrun', ← hprevious]
        split <;> simp [Progress.append]
  · cases failure with
    | unfinished =>
      exact .inr ⟨.unfinished, by simp [round, hrun], by simp [round, hrun', countingFrom]⟩
    | rejected error =>
      have hlength : ((earlier.append progress).errors ++ [error]).length =
          earlier.errors.length + (progress.errors ++ [error]).length := by
        simp [Progress.append]
      by_cases hover : budget < ((earlier.append progress).errors ++ [error]).length
      · refine .inr ⟨.rejected ⟨.errorBudgetExceeded (progress.errors ++ [error]).length,
          error.line⟩, ?_, ?_⟩
        · simp only [round, hrun]
          rw [if_pos (by omega)]
        · simp only [round, hrun', if_pos hover]
          rw [hlength]
          rfl
      · refine .inl ⟨{ progress with errors := progress.errors ++ [error] }, s'.synchronize,
          t'.synchronize, ?_, ?_, htrails⟩
        · simp only [round, hrun]
          rw [if_neg (by omega)]
        · simp only [round, hrun', if_neg hover]
          simp [Progress.append]

/-- Both loops find the same in as many rounds, one of them behind what it has found before. -/
theorem readStatements_trails (rounds : ℕ) (progress : Progress) (h : s.Trails before t)
    (hs : s.Tidy) (hbudget : earlier.errors.length ≤ budget) :
    (readStatements budget rounds (earlier.append progress) t).map (·.1) =
      behind earlier
        ((readStatements (budget - earlier.errors.length) rounds progress s).map (·.1)) := by
  induction rounds generalizing progress s t with
  | zero => rfl
  | succ rounds ih =>
    rw [readStatements, readStatements, h.atEnd]
    cases hmore : s.atEnd with
    | true => rfl
    | false =>
      rcases round_trails progress h hs hmore hbudget with
        ⟨next, s', t', hround, hround', htrails⟩ | ⟨failure, hround, hround'⟩
      · simp only [hround, hround']
        exact ih next htrails (round_forward hs hmore hround).tidy
      · simp only [hround, hround']
        rfl

/-! ## The loop over a text -/

variable {rounds : ℕ} {last : Progress} {session middle here : Session}

theorem Reaches.trans {others : ℕ} (h : Reaches budget rounds progress session next middle)
    (h' : Reaches budget others next middle last here) :
    Reaches budget (rounds + others) progress session last here := by
  induction h with
  | refl => rwa [Nat.zero_add]
  | round more first _ ih =>
    rw [Nat.add_right_comm]
    exact .round more first (ih h')

theorem Reaches.map_solid? (h : Reaches budget rounds progress session last here)
    (hs : session.Tidy) :
    here.cursor.tokens.map Token.solid? = session.cursor.tokens.map Token.solid? := by
  induction h with
  | refl => rfl
  | round more first _ ih =>
    exact (ih (round_forward hs more first).tidy).trans (round_map_solid? hs first)

theorem Reaches.errors_le (h : Reaches budget rounds progress session last here)
    (hbudget : progress.errors.length ≤ budget) : last.errors.length ≤ budget := by
  induction h with
  | refl => exact hbudget
  | round _ first _ ih =>
    refine ih ?_
    rcases round_cases first with ⟨_, -, hsame, -⟩ | ⟨error, _, -, hmet, rfl, -⟩
    · exact hsame ▸ hbudget
    · rw [List.length_append, List.length_singleton]
      omega

/-- The rounds of a run outlast those that led to one of its heads. -/
theorem Reaches.exists_others (h : Reaches budget rounds progress session last here)
    (hs : session.Tidy) :
    ∃ others, session.cursor.size + 1 = rounds + others ∧ here.left < others := by
  have hnear := (h.forward hs).near
  have hsize := left_lt_size session
  exact ⟨session.cursor.size + 1 - rounds, by omega, by omega⟩

/-- A run over a text goes on from each of its heads like a run over the tokens ahead. -/
theorem readAll_of_reaches (hs : session.Tidy) (hsealed : Sealed session.cursor.tokens)
    (h : Reaches budget rounds {} session last here) :
    (readAll budget session).map (·.1) =
      behind last ((readAll (budget - last.errors.length) (.ofTokens here.cursor.ahead)).map
        (·.1)) := by
  have hfwd := h.forward hs
  have hahead : Sealed here.cursor.ahead :=
    (hsealed.of_map_solid? (h.map_solid? hs)).of_append (by simp [Cursor.ahead])
  have htrails : (Session.ofTokens here.cursor.ahead).Trails here.cursor.passed here := by
    rw [Session.Trails, Session.after, Session.on, Cursor.ahead, hahead.cursor_ofTokens]
    rfl
  have hfresh := left_lt_size (.ofTokens here.cursor.ahead)
  obtain ⟨others, hothers, hleft⟩ := h.exists_others hs
  rw [readAll, hothers, readStatements_of_reaches h, readAll,
    readStatements_rounds hfwd.tidy hleft (htrails.left ▸ hfresh)]
  have hread := readStatements_trails ((Session.ofTokens here.cursor.ahead).cursor.size + 1) {}
    htrails (Session.tidy_ofTokens _) (h.errors_le (Nat.zero_le _))
  rwa [Progress.append_empty] at hread

end Compilation

/-! ## Where a failed statement is left -/

namespace Session

variable {s base later : Session} {front rest : List Token} {mark : Token}

/-- A reading that has come no further than behind a semicolon has left the tokens there as they
    are: closing brackets are taken only off a token behind a token of the type. -/
theorem Onward.drop_tokens (h : base.Onward later) (hbase : base.Tidy)
    (htokens : base.cursor.tokens = front ++ mark :: rest)
    (hmark : mark.isPunctuation ";" = true) (hpast : later.past ≤ front.length + 1) :
    later.cursor.tokens.drop (front.length + 1) = rest := by
  induction h with
  | refl => simp [htokens]
  | @advance s honward ih =>
    have hnear := (Forward.advance_min (honward.tidy hbase)).past_le
    exact (congrArg _ (Cursor.tokens_advance _)).trans (ih (by omega))
  | @record s honward diagnostic ih => exact ih hpast
  | @split s c more honward closing firm text several ih =>
    rw [← ih hpast]
    have hread : s.cursor.passed.length ≤ front.length + 1 := hpast
    have hinside : s.cursor.passed.length ≠ front.length + 1 := by
      intro hbehind
      obtain ⟨last, passed, hpassed⟩ := List.exists_cons_of_length_eq_add_one hbehind
      have hsame := honward.map_solid?
      rw [htokens, Cursor.tokens, hpassed, List.reverse_cons, List.append_assoc] at hsame
      simp only [List.map_append, List.map_cons, List.singleton_append] at hsame
      obtain ⟨-, hsame⟩ := List.append_inj hsame (by simp_all)
      have hlast := isPunctuation_of_solid? (List.cons.inj hsame).1 ";"
      rw [Firm, Cursor.previous, hpassed, List.head?_cons, Option.getD_some, hlast, hmark] at firm
      cases firm
    simp only [on, Cursor.tokens, Cursor.ahead, Cursor.replaceText, List.drop_append,
      List.length_reverse]
    obtain ⟨count, hcount⟩ : ∃ count, front.length + 1 - s.cursor.passed.length = count + 1 :=
      ⟨front.length - s.cursor.passed.length, by omega⟩
    rw [hcount]
    rfl

end Session

/-! ## Passing over a statement without braces -/

/-- How far a statement reaches does not depend on closing brackets. -/
theorem statementLength_eq (depth : ℕ) {tokens other : List Token}
    (h : other.map Token.solid? = tokens.map Token.solid?) :
    Cursor.statementLength depth other = Cursor.statementLength depth tokens := by
  induction tokens generalizing depth other with
  | nil =>
    obtain rfl : other = [] := by simpa using h
    rfl
  | cons token tokens ih =>
    obtain ⟨first, other, rfl⟩ := List.exists_cons_of_ne_nil (l := other) (by rintro rfl; simp at h)
    rw [List.map_cons, List.map_cons, List.cons.injEq] at h
    have hrest (depth : ℕ) := ih depth h.2
    have hkind : first.kind = token.kind := by
      rw [kind_eq_solid? first, h.1, ← kind_eq_solid?]
    simp only [Cursor.statementLength, hrest, hkind, isPunctuation_of_solid? h.1]

/-- Without braces, a statement reaches through its first semicolon. -/
theorem statementLength_of_semicolon {body rest : List Token} {mark : Token}
    (hmark : mark.isPunctuation ";" = true)
    (hbody : ∀ token ∈ body, token.kind ≠ .eof ∧ token.isPunctuation "\x7b" = false ∧
      token.isPunctuation "\x7d" = false ∧ token.isPunctuation ";" = false) :
    Cursor.statementLength 0 (body ++ mark :: rest) = body.length + 1 := by
  induction body with
  | nil =>
    have hkind := Parser.kind_of_isPunctuation hmark
    simp only [Token.isPunctuation, Token.hasForm, Bool.and_eq_true, beq_iff_eq] at hmark
    simp [Cursor.statementLength, Token.isPunctuation, Token.hasForm, hmark]
  | cons token body ih =>
    obtain ⟨⟨heof, hopening, hclosing, hother⟩, hmore⟩ := List.forall_mem_cons.mp hbody
    simp [Cursor.statementLength, heof, hopening, hclosing, hother, ih hmore]

namespace Compilation

variable {budget rounds : ℕ} {progress : Progress} {session here there : Session}
  {gap body rest : List Token} {mark : Token} {error : CompileError}

/-- Ahead of a session lie semicolons, if any, then tokens without braces up to a semicolon, the
    first one among them, and then others. -/
structure PlainAhead (session : Session) (gap body : List Token) (mark : Token)
    (rest : List Token) : Prop where
  ahead : session.cursor.ahead = gap ++ body ++ mark :: rest
  gap : ∀ token ∈ gap, token.isPunctuation ";" = true
  semicolon : mark.isPunctuation ";" = true
  plain : ∀ token ∈ body, token.isPunctuation "\x7b" = false ∧
    token.isPunctuation "\x7d" = false ∧ token.isPunctuation ";" = false

namespace PlainAhead

/-- The end of input does not lie before the semicolon. -/
theorem kind_ne_eof (h : PlainAhead here gap body mark rest)
    (hsealed : Sealed here.cursor.tokens) (token : Token) (hmem : token ∈ gap ++ body) :
    token.kind ≠ .eof := by
  have hahead : Sealed (gap ++ body ++ mark :: rest) :=
    h.ahead ▸ hsealed.of_append (by simp [h.ahead])
  exact hahead.kind_ne_eof (by simp) hmem

theorem length_le_left (h : PlainAhead here gap body mark rest)
    (hsealed : Sealed here.cursor.tokens) : gap.length + body.length + 1 ≤ here.left := by
  have hmark := Parser.kind_of_isPunctuation h.semicolon
  rw [Session.left, h.ahead,
    List.takeWhile_append_of_pos (by simpa using h.kind_ne_eof hsealed), List.length_append,
    List.length_append]
  simp [hmark]

/-- If a statement begins no later than at the semicolon, it begins behind the first ones. -/
theorem pending_eq {pending others : List Token} {next : Token}
    (h : PlainAhead here gap body mark rest) (hpending : here.Pending pending next others)
    (hlength : pending.length ≤ gap.length + body.length) : pending = gap := by
  have hself : here.cursor.ahead.takeWhile (·.isPunctuation ";") = pending := by
    rw [hpending.ahead, List.takeWhile_append_of_pos hpending.semicolons, List.takeWhile_cons,
      if_neg (by simp [hpending.other]), List.append_nil]
  rw [h.ahead, List.append_assoc, List.takeWhile_append_of_pos h.gap] at hself
  cases body with
  | nil =>
    rw [List.nil_append, List.takeWhile_cons, if_pos h.semicolon] at hself
    rw [← hself, List.length_append, List.length_cons, List.length_nil] at hlength
    omega
  | cons token body =>
    have hother := (h.plain token List.mem_cons_self).2.2
    rw [List.cons_append, List.takeWhile_cons, if_neg (by simp [hother]), List.append_nil] at hself
    exact hself.symm

/-- From where the first statement begins, it reaches through the semicolon. -/
theorem statementLength_of_past_eq {start : Session} (h : PlainAhead here gap body mark rest)
    (hsealed : Sealed here.cursor.tokens)
    (hsame : start.cursor.tokens.map Token.solid? = here.cursor.tokens.map Token.solid?)
    (hpast : start.past = here.past + gap.length) :
    Cursor.statementLength 0 start.cursor.ahead = body.length + 1 := by
  have htokens : here.cursor.tokens =
      here.cursor.passed.reverse ++ gap ++ (body ++ mark :: rest) := by
    rw [Cursor.tokens, h.ahead, List.append_assoc, List.append_assoc]
  have hmap : start.cursor.ahead.map Token.solid? = (body ++ mark :: rest).map Token.solid? := by
    rw [start.ahead_eq_drop, hpast, List.map_drop, hsame, htokens, ← List.map_drop,
      List.drop_left' (by simp [Session.past])]
  rw [statementLength_eq 0 hmap]
  exact statementLength_of_semicolon h.semicolon fun token hmem =>
    ⟨h.kind_ne_eof hsealed token (List.mem_append_right _ hmem), h.plain token hmem⟩

/-- A statement that has come no further than behind the semicolon is passed over up to there. -/
theorem synchronize (h : PlainAhead here gap body mark rest) (hs : here.Tidy)
    (hsealed : Sealed here.cursor.tokens)
    (hfails : Parser.topLevelStatement here = .error (.rejected error) there)
    (hpast : there.past ≤ here.past + (gap.length + body.length + 1)) :
    there.synchronize.cursor.ahead = rest := by
  obtain ⟨pending, token, others, hpending⟩ := hs.exists_pending
  have htoken := kind_ne_eof_of_rejected hpending hfails
  have hbegun := hpending.forward_begun hs
  have hfirst := Session.Forward.advance hbegun.tidy htoken
  have honward := (topLevelStatement_onward hs hpending htoken).of_rejected hfails
  have hread := hfirst.trans (honward.forward hfirst.tidy)
  have hnear := hread.past_le
  have hnear' := hbegun.past_le
  obtain rfl := h.pending_eq hpending (by omega)
  -- the statement has begun behind the first semicolons, which is where one goes back to
  have hbegin : (here.begun pending token others).past = here.past + pending.length := by
    simp [Session.past, Session.between, Cursor.between, Nat.add_comm]
  have hstart : there.statementStart = here.past + pending.length :=
    honward.statementStart.trans hbegin
  have htokens : here.cursor.tokens =
      here.cursor.passed.reverse ++ pending ++ body ++ mark :: rest := by
    rw [Cursor.tokens, h.ahead, List.append_assoc, List.append_assoc, List.append_assoc]
  have hlength : (here.cursor.passed.reverse ++ pending ++ body).length + 1 =
      here.past + (pending.length + body.length + 1) := by
    rw [List.length_append, List.length_append, List.length_reverse, Session.past]
    omega
  have hdrop := (Session.Onward.trans (.advance .refl) honward).drop_tokens hbegun.tidy
    (hpending.tokens_begun.trans htokens) h.semicolon (by omega)
  have hsame := (topLevelStatement_map_solid? hs).2 error hfails
  obtain ⟨htidy, hback, htotal⟩ := hread.tidy.retreatTo (hstart.trans_le (by omega))
  set start := there.on (·.retreatTo there.statementStart)
  have hstartTokens : start.cursor.tokens = there.cursor.tokens := Cursor.tokens_retreatTo _ _
  have hreach : Cursor.statementLength 0 start.cursor.ahead = body.length + 1 :=
    h.statementLength_of_past_eq hsealed (hstartTokens ▸ hsame) (hback.trans hstart)
  have hpast' : there.synchronize.past = here.past + (pending.length + body.length + 1) := by
    have hmoved := (htidy.advanceBy (Cursor.statementLength 0 start.cursor.ahead)).2
    have hskip : there.synchronize.past =
        (start.on (·.advanceBy (Cursor.statementLength 0 start.cursor.ahead))).past := rfl
    have hall := h.length_le_left hsealed
    have htotal' := hread.total
    have hbegun' := hbegun.total
    omega
  rw [there.synchronize.ahead_eq_drop, there.tokens_synchronize, hpast', ← hlength]
  exact hdrop

end PlainAhead

/-- A run over a text goes on from each of its heads like a run over the tokens ahead of it, with
    the budget that is left. If a statement fails there, behind semicolons if there are any, and has
    come no further than behind the first semicolon after its beginning, with no brace before that
    one, then its error is the only one, and the run goes on like a run over the tokens behind the
    semicolon. If the budget is used up, the run ends at the error. -/
theorem readAll_isolates {text : String} (htext : Session.ofText text = .ok session)
    (hreaches : Reaches budget rounds {} session progress here) :
    (readAll budget session).map (·.1) =
      behind progress
        ((readAll (budget - progress.errors.length) (.ofTokens here.cursor.ahead)).map (·.1)) ∧
    ∀ gap body mark rest error there, PlainAhead here gap body mark rest →
      Parser.topLevelStatement here = .error (.rejected error) there →
      there.past ≤ here.past + (gap ++ body ++ [mark]).length →
      if progress.errors.length < budget then
        ∃ next, round budget progress here =
            .ok ({ progress with errors := progress.errors ++ [error] }, next) ∧
          next.cursor.ahead = rest ∧
          (readAll budget session).map (·.1) =
            behind { progress with errors := progress.errors ++ [error] }
              ((readAll (budget - (progress.errors.length + 1)) (.ofTokens rest)).map (·.1))
      else
        readAll budget session =
          .error (.rejected ⟨.errorBudgetExceeded (progress.errors.length + 1), error.line⟩) := by
  have hs := Session.tidy_ofText htext
  have hsealed := Session.sealed_ofText htext
  refine ⟨readAll_of_reaches hs hsealed hreaches, ?_⟩
  intro gap body mark rest error there hahead hfails hpast
  rw [List.length_append, List.length_append, List.length_singleton] at hpast
  have hsealed' := hsealed.of_map_solid? (hreaches.map_solid? hs)
  have hrest := hahead.synchronize (hreaches.forward hs).tidy hsealed' hfails hpast
  have hleft := hahead.length_le_left hsealed'
  have hmore : here.atEnd = false := by
    rw [Bool.eq_false_iff, ne_eq, ← Session.left_eq_zero_iff]
    omega
  split
  next hbudget =>
    have hround : round budget progress here =
        .ok ({ progress with errors := progress.errors ++ [error] }, there.synchronize) := by
      simp [round, hfails, Nat.not_lt.mpr (Nat.succ_le_of_lt hbudget)]
    have hnext := hreaches.trans (.round hmore hround .refl)
    have hrun := readAll_of_reaches hs hsealed hnext
    rw [hrest, List.length_append, List.length_singleton] at hrun
    exact ⟨there.synchronize, hround, hrest, hrun⟩
  next hbudget =>
    have hround : round budget progress here =
        .error (.rejected ⟨.errorBudgetExceeded (progress.errors.length + 1), error.line⟩) := by
      simp [round, hfails, Nat.lt_succ_of_le (Nat.not_lt.mp hbudget)]
    obtain ⟨others, hothers, hmany⟩ := hreaches.exists_others hs
    obtain ⟨others, rfl⟩ : ∃ fewer, others = fewer + 1 := ⟨others - 1, by omega⟩
    rw [readAll, hothers, readStatements_of_reaches hreaches, readStatements, hmore,
      if_neg (by decide), hround]
    rfl

/-- The second statement lacks its value. The run goes on with the third one, as if it began
    there. -/
theorem readAll_isolates_missing :
    ∃ session first here next error,
      Session.ofText "alloc int a;\nlet a = ;\nif (a) \x7b let a = 1; \x7d" = .ok session ∧
      Reaches 5 1 {} session first here ∧ first.errors = [] ∧
      round 5 first here = .ok ({ first with errors := [error] }, next) ∧
      (next.cursor.ahead.map (·.text)).take 4 = ["if", "(", "a", ")"] ∧
      (readAll 5 session).map (·.1) =
        behind { first with errors := [error] }
          ((readAll 4 (.ofTokens next.cursor.ahead)).map (·.1)) := by
  obtain ⟨text, htext⟩ : ∃ text,
    text = "alloc int a;\nlet a = ;\nif (a) \x7b let a = 1; \x7d" := ⟨_, rfl⟩
  have hreads : (match Session.ofText text with
      | .error _ => false
      | .ok session => match round 5 {} session with
        | .error _ => false
        | .ok (first, here) => match Parser.topLevelStatement here with
          | .error (.rejected _) there =>
            !session.atEnd && first.errors.isEmpty && there.past ≤ here.past + 5 &&
              here.cursor.ahead.take 5 == [⟨.punctuation, ";", 1⟩, ⟨.keyword, "let", 2⟩,
                ⟨.identifier, "a", 2⟩, ⟨.operator, "=", 2⟩, ⟨.punctuation, ";", 2⟩] &&
              ((here.cursor.ahead.drop 5).map (·.text)).take 4 == ["if", "(", "a", ")"]
          | _ => false) = true := by
    rw [htext]
    decide +kernel
  rw [← htext]
  split at hreads
  next => cases hreads
  next session hsession =>
    split at hreads
    next => cases hreads
    next first here hround =>
      split at hreads
      next error there hfails =>
        simp only [Bool.and_eq_true, Bool.not_eq_true', List.isEmpty_iff, decide_eq_true_eq,
          beq_iff_eq] at hreads
        obtain ⟨⟨⟨⟨hmore, hnone⟩, hpast⟩, hahead⟩, hrest⟩ := hreads
        have hreaches : Reaches 5 1 {} session first here := .round hmore hround .refl
        have hplain : PlainAhead here [⟨.punctuation, ";", 1⟩]
            [⟨.keyword, "let", 2⟩, ⟨.identifier, "a", 2⟩, ⟨.operator, "=", 2⟩]
            ⟨.punctuation, ";", 2⟩ (here.cursor.ahead.drop 5) :=
          ⟨by rw [← List.take_append_drop 5 here.cursor.ahead, hahead]; simp, by decide,
            by decide, by decide⟩
        have hisolates := (readAll_isolates hsession hreaches).2 _ _ _ _ _ _ hplain hfails hpast
        rw [if_pos (by simp [hnone])] at hisolates
        obtain ⟨next, hnext, hlands, hrun⟩ := hisolates
        rw [hnone] at hnext hrun
        refine ⟨session, first, here, next, error, hsession, hreaches, hnone, hnext, ?_, ?_⟩
        · rwa [hlands]
        · rwa [hlands]
      next => cases hreads

end Compilation

end SinFrontend
