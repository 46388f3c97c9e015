import Mathlib.Data.List.TakeWhile
import SinFrontend.Compilation
import SinFrontend.Proofs.Descent
import SinFrontend.Proofs.Reading

/-!
# Compiling is parsing, as long as nothing fails

A program is read in two ways: as one block, and statement by statement by a loop that goes on
behind an error. Both skip semicolons, look for the end of input and count the `pass` statements on
their own.

* `Compilation.Reaches`: the states that the loop passes through.
* `outcome_statements`: from corresponding sessions, the loop follows the reading of a block up to
  the first error of either.
* `compile_iff_program`: without errors, both give the same program with the same diagnostics, and
  the error that the parser stops with is the first one that the loop meets.
-/

namespace SinFrontend

/-! ## Sessions that differ in where the last statement began -/

/-- Sessions at the same place that have noted the same. -/
def Session.Level (s t : Session) : Prop :=
  s.cursor = t.cursor ∧ s.diagnostics = t.diagnostics

theorem Session.frame_level : Session.Frame Session.Level where
  ahead h := by rw [h.1]
  previous h _ := by rw [h.1]
  advance h := ⟨congrArg Cursor.advance h.1, h.2⟩
  retreat h _ := ⟨congrArg Cursor.retreat h.1, h.2⟩
  split h _ _ _ _ _ := ⟨congrArg (Cursor.replaceText · _) h.1, h.2⟩
  record h diagnostic := ⟨h.1, congrArg (· ++ [diagnostic]) h.2⟩

/-! ## Semicolons ahead -/

/-- Ahead of a session lie semicolons, and then another token. -/
structure Session.Pending (s : Session) (pending : List Token) (next : Token)
    (rest : List Token) : Prop where
  ahead : s.cursor.ahead = pending ++ next :: rest
  semicolons : ∀ token ∈ pending, token.isPunctuation ";" = true
  other : next.isPunctuation ";" = false

/-- The session behind the semicolons that lie ahead. -/
abbrev Session.behind (s : Session) (pending : List Token) (next : Token) (rest : List Token) :
    Session :=
  s.between (pending.reverse ++ s.cursor.passed) (next :: rest)

namespace Session

variable {s t : Session} {pending rest : List Token} {next : Token}

theorem Tidy.exists_pending (hs : s.Tidy) : ∃ pending next rest, s.Pending pending next rest := by
  obtain ⟨last, hmem, heof⟩ := hs.closed
  have hother : last.isPunctuation ";" = false := Parser.hasForm_eof heof (by decide)
  cases hdrop : s.cursor.ahead.dropWhile (·.isPunctuation ";") with
  | nil =>
    have hall := List.dropWhile_eq_nil_iff.mp hdrop last hmem
    rw [hother] at hall
    cases hall
  | cons next rest =>
    refine ⟨s.cursor.ahead.takeWhile (·.isPunctuation ";"), next, rest, ?_, ?_, ?_⟩
    · rw [← hdrop, List.takeWhile_append_dropWhile]
    · intro token htoken
      exact List.mem_takeWhile_imp (p := fun token : Token => token.isPunctuation ";") htoken
    · have hhead := List.head_dropWhile_not (fun token : Token => token.isPunctuation ";")
        (by rw [hdrop]; simp)
      simpa [hdrop] using hhead

namespace Pending

theorem kind (h : s.Pending pending next rest) (token : Token) (hmem : token ∈ pending) :
    token.kind ≠ .eof := by
  rw [Parser.kind_of_isPunctuation (h.semicolons token hmem)]
  decide

theorem of_level (h : s.Pending pending next rest) (hlevel : s.Level t) :
    t.Pending pending next rest :=
  ⟨hlevel.1 ▸ h.ahead, h.semicolons, h.other⟩

theorem skip (h : s.Pending pending next rest) :
    Parser.skipSemicolons s = .ok () (s.behind pending next rest) := by
  have hskip := Parser.skipSemicolons_run pending h.semicolons h.other s s.cursor.passed rest
  rwa [← h.ahead, Session.between_self] at hskip

theorem forward (h : s.Pending pending next rest) (hs : s.Tidy) :
    s.Forward pending.length (s.behind pending next rest) := by
  have hleft : s.left = pending.length + (s.behind pending next rest).left := by
    unfold Session.left
    rw [h.ahead, Session.between_ahead _ _ _ (by simp),
      List.takeWhile_append_of_pos (by simpa using h.kind), List.length_append]
  have hpast : (s.behind pending next rest).past = pending.length + s.past := by
    simp [Session.past, Session.between, Cursor.between]
  refine ⟨⟨?_, ?_⟩, by omega, by omega⟩
  · obtain ⟨last, hmem, heof⟩ := hs.closed
    rw [h.ahead] at hmem
    rcases List.mem_append.mp hmem with hmem | hmem
    · exact absurd heof (h.kind last hmem)
    · exact ⟨last, hmem, heof⟩
  · intro token hmem
    rcases List.mem_append.mp hmem with hmem | hmem
    · exact h.kind token (List.mem_reverse.mp hmem)
    · exact hs.passed token hmem

/-- A session is at the end of input if no semicolons lie ahead and the token ahead is the end. -/
theorem atEnd_eq_false (h : s.Pending pending next rest) (hmore : next.kind ≠ .eof ∨ pending ≠ []) :
    s.atEnd = false := by
  rw [Bool.eq_false_iff, ne_eq, ← Session.left_eq_zero_iff, ← ne_eq, ← Nat.pos_iff_ne_zero,
    Session.left_pos_iff]
  cases pending with
  | nil =>
    rw [(List.cons.inj h.ahead).1]
    exact hmore.resolve_right (absurd rfl)
  | cons first more =>
    rw [(List.cons.inj h.ahead).1]
    exact h.kind first List.mem_cons_self

/-- Behind a token that is not the end of input there are others. -/
theorem rest_ne_nil (h : s.Pending pending next rest) (hs : s.Tidy) (hnext : next.kind ≠ .eof) :
    rest ≠ [] := by
  rintro rfl
  obtain ⟨last, hmem, heof⟩ := (h.forward hs).tidy.closed
  rw [List.mem_singleton.mp hmem] at heof
  exact hnext heof

end Pending

end Session

/-! ## One statement -/

namespace Parser

/-- A parser leaves no statement only for a reason, and then it reads nothing. -/
def LeavesNone (p : Parser (Option Statement)) (s : Session) (reason : Prop) : Prop :=
  ∀ s', p s = .ok none s' → reason ∧ s' = s

theorem leavesNone_map_some (p : Parser Statement) (s : Session) (reason : Prop) :
    LeavesNone (some <$> p) s reason := by
  intro s' h
  rw [map_run] at h
  cases hp : p s <;> simp [hp] at h

theorem keywordStatement_none (parse : Descent) (isParameter : Bool) (token : Token) (s : Session) :
    LeavesNone (keywordStatement parse isParameter token) s (token.text = "pass") := by
  unfold keywordStatement
  split
  case h_6 =>
    intro s' h
    rw [bind_run] at h
    split at h <;> simp at h
  case h_11 hpass =>
    intro s' h
    obtain ⟨-, rfl⟩ : True ∧ s = s' := by simpa using h
    exact ⟨hpass, rfl⟩
  case h_12 =>
    intro s' h
    simp at h
  all_goals exact leavesNone_map_some _ _ _

/-- Only a `pass` leaves no statement, and then nothing but its word has been read. -/
theorem statementRule_none {parse : Descent} {isParameter : Bool} {base s' : Session}
    {passed rest : List Token} {first : Token} (heof : first.kind ≠ .eof) (hrest : rest ≠ [])
    (h : statementRule parse isParameter (base.between passed (first :: rest)) = .ok none s') :
    first.isKeyword "pass" = true ∧ s' = base.between (first :: passed) rest := by
  have hadvance := Session.between_advance base passed rest first heof hrest
  simp only [statementRule, bind_run, advance_run, hadvance, Session.between_previous] at h
  cases hkind : first.kind with
  | keyword =>
    simp only [hkind] at h
    obtain ⟨hpass, rfl⟩ := keywordStatement_none _ _ _ _ _ h
    exact ⟨by simp [Token.isKeyword, Token.hasForm, hkind, hpass], rfl⟩
  | eof => exact absurd hkind heof
  | _ =>
    simp only [hkind, ite_run, bind_run, retreat_run] at h
    split at h
    · exact absurd (leavesNone_map_some _ _ False _ h).1 id
    · split at h
      · split at h <;> simp at h
      · simp at h

end Parser

namespace Compilation

/-! ## The loop -/

/-- The progress behind an entry of a block. -/
def Progress.add (progress : Progress) (entry : Option Statement × ℕ) : Progress :=
  match entry with
  | (some statement, _) => { progress with program := progress.program.push statement }
  | (none, line) => { progress with passes := progress.passes ++ [line] }

/-- The loop gets from one state to another in a number of rounds. -/
inductive Reaches (budget : ℕ) : ℕ → Progress → Session → Progress → Session → Prop where
  | refl {progress : Progress} {session : Session} :
    Reaches budget 0 progress session progress session
  | round {rounds : ℕ} {progress next last : Progress} {session middle later : Session}
    (more : session.atEnd = false) (first : round budget progress session = .ok (next, middle))
    (others : Reaches budget rounds next middle last later) :
    Reaches budget (rounds + 1) progress session last later

variable {budget rounds : ℕ} {progress : Progress} {s t : Session}

/-- What the loop does in comparison with the reading of a block: it gets through all entries
    (`ended`), or it stops behind some of them, at a closing brace (`braced`) or at a statement that
    the reading of the block stops at too (`failed`). -/
inductive Outcome (budget : ℕ) (progress : Progress) (t : Session) :
    EStateM.Result Failure Session (List (Option Statement × ℕ)) → Prop where
  | ended {entries : List (Option Statement × ℕ)} {rounds : ℕ} {s' t' : Session}
    (atEnd : s'.atEnd = true) (level : s'.Level t') (few : rounds ≤ t.left)
    (reaches : Reaches budget rounds progress t (entries.foldl Progress.add progress) t') :
    Outcome budget progress t (.ok entries s')
  | braced {entries : List (Option Statement × ℕ)} {rounds : ℕ} {s' t' t'' : Session}
    (more : s'.atEnd = false)
    (reaches : Reaches budget rounds progress t (entries.foldl Progress.add progress) t')
    (more' : t'.atEnd = false) (stops : Parser.topLevelStatement t' = .error (.rejected
      ⟨.invalidStatementStart s'.cursor.current.text, s'.cursor.current.line⟩) t'') :
    Outcome budget progress t (.ok entries s')
  | failed {entries : List (Option Statement × ℕ)} {rounds : ℕ} {failure : Failure}
    {s' t' t'' : Session}
    (reaches : Reaches budget rounds progress t (entries.foldl Progress.add progress) t')
    (more : t'.atEnd = false) (stops : Parser.topLevelStatement t' = .error failure t'') :
    Outcome budget progress t (.error failure s')

/-- An outcome behind a round that added an entry. -/
theorem Outcome.cons {entry : Option Statement × ℕ} {middle : Session}
    {p : Parser (List (Option Statement × ℕ))} (hmore : t.atEnd = false)
    (hround : round budget progress t = .ok (progress.add entry, middle))
    (hnear : middle.left + 1 ≤ t.left) (h : Outcome budget (progress.add entry) middle (p s)) :
    Outcome budget progress t ((do return entry :: (← p)) s) := by
  rw [Parser.bind_run]
  generalize p s = result at h ⊢
  cases h with
  | ended hend hlevel hfew hreaches =>
    exact .ended hend hlevel (by omega) (.round hmore hround hreaches)
  | braced hbrace hreaches hmore' hstops =>
    exact .braced hbrace (.round hmore hround hreaches) hmore' hstops
  | @failed entries rounds _ _ t' _ hreaches hmore' hstops =>
    have hall : Reaches budget (rounds + 1) progress t ((entry :: entries).foldl Progress.add progress)
      t' := .round hmore hround hreaches
    exact .failed hall hmore' hstops

variable {pending rest : List Token} {next : Token}

/-- The statement that a round reads at the top level, behind the semicolons that lie ahead. -/
theorem topLevelStatement_eq (h : t.Pending pending next rest) :
    Parser.topLevelStatement t =
      if next.kind = .eof then .ok none (t.behind pending next rest)
      else Parser.full (.statement false) { t.behind pending next rest with
        statementStart := (pending.reverse ++ t.cursor.passed).length } := by
  simp only [Parser.topLevelStatement, Parser.bind_run, h.skip, Parser.atEnd_run]
  by_cases hend : next.kind = .eof
  · have hstop : (t.behind pending next rest).atEnd = true := by
      simp [Session.atEnd, Cursor.atEnd, hend]
    rw [if_pos hend, Parser.ite_run, if_pos hstop]
    rfl
  · have hmore : (t.behind pending next rest).atEnd = false := by
      simp [Session.atEnd, Cursor.atEnd, hend]
    rw [if_neg hend, Parser.ite_run, hmore, if_neg (by decide)]
    rfl

/-- A closing brace begins no statement. -/
theorem full_statement_brace (base : Session) (passed : List Token)
    (hbrace : next.isPunctuation Grouping.brace.closing = true) (hrest : rest ≠ []) :
    Parser.full (.statement false) (base.between passed (next :: rest)) =
      .error (.rejected ⟨.invalidStatementStart next.text, next.line⟩)
        (base.between (next :: passed) rest) := by
  have hkind := Parser.kind_of_isPunctuation hbrace
  have hadvance := Session.between_advance base passed rest next (by simp [hkind]) hrest
  have hat : next.isOperator Operator.controlTransfer.symbol = false := by
    simp [Token.isOperator, Token.hasForm, hkind]
  have hopening : next.isPunctuation Grouping.brace.opening = false :=
    Parser.isPunctuation_of_ne hbrace (by decide)
  show Parser.statementRule (Parser.descend _) false _ = _
  simp [Parser.statementRule, hadvance, hkind, hat, hopening]

/-- A round that reads a statement, or a `pass`, adds the entry that the block has for it. -/
theorem round_of_ok {statement : Option Statement} {line : ℕ} {t' : Session}
    (htop : Parser.topLevelStatement t = .ok statement t')
    (hpass : statement = none →
      t'.cursor.previous.isKeyword "pass" = true ∧ t'.cursor.previous.line = line) :
    round budget progress t = .ok (progress.add (statement, line), t') := by
  cases statement with
  | some statement => simp [round, htop, Progress.add]
  | none =>
    obtain ⟨hword, rfl⟩ := hpass rfl
    simp [round, htop, hword, Progress.add]

/-- A round over nothing but semicolons, at least one, changes nothing. -/
theorem round_of_semicolons (h : t.Pending pending next rest) (hne : pending ≠ [])
    (hnext : next.kind = .eof) :
    round budget progress t = .ok (progress, t.behind pending next rest) := by
  have htop := topLevelStatement_eq h
  rw [if_pos hnext] at htop
  obtain ⟨last, more, hreverse⟩ := List.exists_cons_of_ne_nil (List.reverse_ne_nil_iff.mpr hne)
  have hmem : last ∈ pending := List.mem_reverse.mp (hreverse ▸ List.mem_cons_self)
  have hlast : last.isKeyword "pass" = false := by
    simp [Token.isKeyword, Token.hasForm, Parser.kind_of_isPunctuation (h.semicolons last hmem)]
  have hprevious : (t.behind pending next rest).cursor.previous = last := by
    rw [Session.behind, hreverse]
    exact Session.between_previous _ _ _ _
  simp [round, htop, hprevious, hlast]

/-! ## The loop and the block -/

/-- Where no statement is left, the loop ends. -/
theorem outcome_of_ends (hlevel : s.Level t) (h : s.Pending pending next rest)
    (hend : next.kind = .eof) : Outcome budget progress t (.ok [] (s.behind pending next rest)) := by
  have hat : (s.behind pending next rest).atEnd = true := by
    simp [Session.atEnd, Cursor.atEnd, hend]
  have hlevel' : (s.behind pending next rest).Level (t.behind pending next rest) :=
    ⟨by rw [Session.behind, Session.behind, hlevel.1]; rfl, hlevel.2⟩
  by_cases hnone : pending = []
  · subst hnone
    have hself : t.behind [] next rest = t := by
      have hahead := (h.of_level hlevel).ahead
      rw [List.nil_append] at hahead
      rw [Session.behind, List.reverse_nil, List.nil_append, ← hahead, Session.between_self]
    rw [hself] at hlevel'
    exact .ended hat hlevel' (Nat.zero_le _) .refl
  · have ht := h.of_level hlevel
    have hmore := ht.atEnd_eq_false (.inr hnone)
    have hleft : 1 ≤ t.left := by
      rw [Nat.one_le_iff_ne_zero, ne_eq, Session.left_eq_zero_iff, hmore]
      decide
    exact .ended hat hlevel' hleft (.round hmore (round_of_semicolons ht hnone hend) .refl)

/-- A closing brace ends a block, and the loop stops at it. -/
theorem outcome_of_brace (hlevel : s.Level t) (hs : s.Tidy) (h : s.Pending pending next rest)
    (hbrace : next.isPunctuation Grouping.brace.closing = true) :
    Outcome budget progress t (.ok [] (s.behind pending next rest)) := by
  have hnext : next.kind ≠ .eof := by
    rw [Parser.kind_of_isPunctuation hbrace]
    decide
  have ht := h.of_level hlevel
  have htop := topLevelStatement_eq ht
  rw [if_neg hnext] at htop
  have hstops := full_statement_brace
    { t with statementStart := (pending.reverse ++ t.cursor.passed).length }
    (pending.reverse ++ t.cursor.passed) hbrace (h.rest_ne_nil hs hnext)
  have hmore : (s.behind pending next rest).atEnd = false := by
    simp [Session.atEnd, Cursor.atEnd, hnext]
  exact .braced hmore .refl (ht.atEnd_eq_false (.inl hnext)) (htop.trans hstops)

/-- A statement behind the semicolons ahead is read alike by the loop and as part of a block. -/
theorem topLevelStatement_endsAlike {steps : ℕ} (hlevel : s.Level t) (hs : s.Tidy)
    (h : s.Pending pending next rest) (hnext : next.kind ≠ .eof)
    (hsteps : (Goal.statement false).rank (s.behind pending next rest).left ≤ steps) :
    Parser.EndsAlike Session.Level
      (fun _ => (s.behind pending next rest).Forward (min 1 (s.behind pending next rest).left))
      (Parser.descend steps (.statement false) (s.behind pending next rest))
      (Parser.topLevelStatement t) := by
  have hleft : 0 < (s.behind pending next rest).left := Session.left_pos_iff.mpr hnext
  have hab : Parser.Abreast Session.Level (s.behind pending next rest)
      { t.behind pending next rest with
        statementStart := (pending.reverse ++ t.cursor.passed).length } :=
    ⟨⟨by rw [Session.behind, hlevel.1]; rfl, hlevel.2⟩, (h.forward hs).tidy, by omega⟩
  rw [topLevelStatement_eq (h.of_level hlevel), if_neg hnext]
  exact Parser.descend_agree Session.frame_level hsteps (Parser.rank_le_stepsFor (.statement false)
    { t.behind pending next rest with
      statementStart := (pending.reverse ++ t.cursor.passed).length }) (.statement false) _ _ hab
    (Nat.lt_succ_self _)

/-- Where a statement is left, the loop reads it and goes on as the block does, or fails with it. -/
theorem outcome_of_statement {steps : ℕ} (hlevel : s.Level t) (hs : s.Tidy)
    (h : s.Pending pending next rest) (hnext : next.kind ≠ .eof)
    (hsteps : (Goal.statement false).rank (s.behind pending next rest).left ≤ steps)
    (hmore : ∀ {statement : Option Statement} {later t' : Session}, later.Level t' → later.Tidy →
      later.left + 1 ≤ (s.behind pending next rest).left →
      Outcome budget (progress.add (statement, next.line)) t'
        (Parser.descend steps .statements later)) :
    Outcome budget progress t
      ((do
        let statement ← Parser.descend steps (.statement false)
        return (statement, next.line) :: (← Parser.descend steps .statements))
      (s.behind pending next rest)) := by
  have hat := (h.of_level hlevel).atEnd_eq_false (.inl hnext)
  have hleft : 0 < (s.behind pending next rest).left := Session.left_pos_iff.mpr hnext
  have hnear := (h.forward hs).left_le
  have hsame : s.left = t.left := by rw [Session.left, hlevel.1]; rfl
  have halike := topLevelStatement_endsAlike hlevel hs h hnext hsteps
  generalize hx : Parser.descend steps (.statement false) (s.behind pending next rest) = x,
    hy : Parser.topLevelStatement t = y at halike
  rw [Parser.bind_run, hx]
  cases halike with
  | @ok statement later t' hlater hfwd =>
    have hnear' := hfwd.near
    have hround : round budget progress t = .ok (progress.add (statement, next.line), t') := by
      apply round_of_ok hy
      intro hnone
      subst hnone
      obtain ⟨steps, rfl⟩ : ∃ more, steps = more + 1 := by
        have := (Goal.statement false).rank_pos (s.behind pending next rest).left
        exact ⟨steps - 1, by omega⟩
      obtain ⟨hpass, rfl⟩ := Parser.statementRule_none hnext (h.rest_ne_nil hs hnext) hx
      rw [← hlater.1, Session.between_previous]
      exact ⟨hpass, rfl⟩
    have hnext' : t'.left = later.left := by rw [Session.left, ← hlater.1]; rfl
    exact (hmore hlater hfwd.tidy (by omega)).cons hat hround (by omega)
  | error _ =>
    have hnone : Reaches budget 0 progress t ([].foldl Progress.add progress) t := .refl
    exact .failed hnone hat hy

/-- The loop follows the reading of a block, statement by statement. The induction is on the steps
    of the descent, of which each statement takes one. -/
theorem outcome_statements {steps : ℕ} {progress : Progress} {s t : Session} (hlevel : s.Level t)
    (hs : s.Tidy) (hsteps : Goal.statements.rank s.left ≤ steps) :
    Outcome budget progress t (Parser.descend steps .statements s) := by
  induction steps generalizing progress s t with
  | zero =>
    have := Goal.statements.rank_pos s.left
    omega
  | succ steps ih =>
    obtain ⟨pending, next, rest, h⟩ := hs.exists_pending
    have hnear := (h.forward hs).left_le
    show Outcome budget progress t (Parser.statementsRule (Parser.descend steps) s)
    simp only [Parser.statementsRule, Parser.bind_run, h.skip, Parser.atEnd_run,
      Parser.atPunctuation_run, Session.between_current]
    by_cases hend : next.kind = .eof
    · have hat : (s.behind pending next rest).atEnd = true := by
        simp [Session.atEnd, Cursor.atEnd, hend]
      rw [hat, Bool.true_or, if_pos rfl, Parser.pure_run]
      exact outcome_of_ends hlevel h hend
    have hmore : (s.behind pending next rest).atEnd = false := by
      simp [Session.atEnd, Cursor.atEnd, hend]
    rw [hmore, Bool.false_or]
    by_cases hbrace : next.isPunctuation Grouping.brace.closing = true
    · rw [if_pos hbrace, Parser.pure_run]
      exact outcome_of_brace hlevel hs h hbrace
    · have hleft : 0 < (s.behind pending next rest).left := Session.left_pos_iff.mpr hend
      simp only [Goal.rank] at hsteps
      rw [if_neg (by omega)] at hsteps
      have hrank : (Goal.statement false).rank (s.behind pending next rest).left ≤ steps := by
        simp only [Goal.rank]
        omega
      rw [if_neg hbrace, Parser.bind_run, Parser.currentLine_run]
      apply outcome_of_statement hlevel hs h hend hrank
      intro statement later t' hlater htidy hnear'
      replace hnear' : later.left + 1 ≤ (s.behind pending next rest).left := hnear'
      apply ih hlater htidy
      simp only [Goal.rank]
      split <;> omega

/-! ## What the loop has collected -/

theorem errors_foldl_add (entries : List (Option Statement × ℕ)) (progress : Progress) :
    (entries.foldl Progress.add progress).errors = progress.errors := by
  induction entries generalizing progress with
  | nil => rfl
  | cons entry entries ih =>
    rw [List.foldl_cons, ih]
    obtain ⟨_ | statement, line⟩ := entry <;> rfl

theorem program_foldl_add (entries : List (Option Statement × ℕ)) (progress : Progress) :
    (entries.foldl Progress.add progress).program =
      (entries.filterMap (·.1)).foldl Block.push progress.program := by
  induction entries generalizing progress with
  | nil => rfl
  | cons entry entries ih =>
    rw [List.foldl_cons, ih]
    obtain ⟨_ | statement, line⟩ := entry <;> rfl

theorem passes_foldl_add (entries : List (Option Statement × ℕ)) (progress : Progress) :
    (entries.foldl Progress.add progress).passes =
      progress.passes ++ (entries.filter (·.1.isNone)).map (·.2) := by
  induction entries generalizing progress with
  | nil => simp
  | cons entry entries ih =>
    rw [List.foldl_cons, ih]
    obtain ⟨_ | statement, line⟩ := entry <;> simp [Progress.add]

/-! ## Rounds -/

/-- A number of rounds leads to where the loop gets in them. -/
theorem readStatements_of_reaches {rounds : ℕ} {progress last : Progress} {session later : Session}
    (h : Reaches budget rounds progress session last later) (others : ℕ) :
    readStatements budget (rounds + others) progress session =
      readStatements budget others last later := by
  induction h with
  | refl => rw [Nat.zero_add]
  | round more first _ ih =>
    rw [Nat.add_right_comm, readStatements, more, if_neg (by decide), first]
    exact ih

theorem round_errors {progress next : Progress} {session middle : Session}
    (h : round budget progress session = .ok (next, middle)) : progress.errors <+: next.errors := by
  unfold round at h
  split at h
  · obtain ⟨rfl, -⟩ : _ = next ∧ _ = middle := by simpa using h
    exact List.prefix_rfl
  · obtain ⟨rfl, -⟩ : _ = next ∧ _ = middle := by simpa using h
    split <;> exact List.prefix_rfl
  · simp only at h
    split at h
    · cases h
    · obtain ⟨rfl, -⟩ : _ = next ∧ _ = middle := by simpa using h
      exact List.prefix_append _ _
  · cases h

/-- A loop that ends has led there round by round. -/
theorem reaches_of_readStatements {rounds : ℕ} {progress last : Progress} {session later : Session}
    (h : readStatements budget rounds progress session = .ok (last, later)) :
    ∃ count, Reaches budget count progress session last later := by
  induction rounds generalizing progress session with
  | zero => cases h
  | succ rounds ih =>
    rw [readStatements] at h
    cases hmore : session.atEnd with
    | true =>
      obtain ⟨rfl, rfl⟩ : progress = last ∧ session = later := by simpa [hmore] using h
      exact ⟨0, .refl⟩
    | false =>
      cases hround : round budget progress session with
      | error failure => simp [hmore, hround, bind, Except.bind] at h
      | ok result =>
        obtain ⟨count, hothers⟩ := ih (by simpa [hmore, hround, bind, Except.bind] using h)
        exact ⟨count + 1, .round hmore hround hothers⟩

/-- Errors that were met are kept. -/
theorem readStatements_errors {rounds : ℕ} {progress last : Progress} {session later : Session}
    (h : readStatements budget rounds progress session = .ok (last, later)) :
    progress.errors <+: last.errors := by
  obtain ⟨count, hreaches⟩ := reaches_of_readStatements h
  clear h
  induction hreaches with
  | refl => exact List.prefix_rfl
  | round _ first _ ih => exact (round_errors first).trans ih

/-- Where the loop stops at an error, it has the error as the next one, if it ends at all. -/
theorem errors_of_failed {rounds count : ℕ} {progress middle last : Progress}
    {session here there later : Session} {failure : Failure}
    (hreaches : Reaches budget count progress session middle here) (hmore : here.atEnd = false)
    (hstops : Parser.topLevelStatement here = .error failure there)
    (h : readStatements budget rounds progress session = .ok (last, later)) :
    ∃ error, failure = .rejected error ∧ middle.errors ++ [error] <+: last.errors := by
  induction hreaches generalizing rounds with
  | @refl progress session =>
    cases rounds with
    | zero => cases h
    | succ rounds =>
      rw [readStatements, hmore, if_neg (by decide)] at h
      cases failure with
      | unfinished => simp [round, hstops, bind, Except.bind] at h
      | rejected error =>
        refine ⟨error, rfl, ?_⟩
        by_cases hbudget : budget < (progress.errors ++ [error]).length
        · simp only [round, hstops, if_pos hbudget] at h
          cases h
        · simp only [round, hstops, if_neg hbudget] at h
          exact readStatements_errors h
  | round more first _ ih =>
    cases rounds with
    | zero => cases h
    | succ rounds =>
      rw [readStatements, more, if_neg (by decide), first] at h
      exact ih hmore hstops h

/-! ## The two readings compared -/

section Programs

variable {entries : List (Option Statement × ℕ)} {session s' : Session}

theorem program_of_ended (h : Parser.full .statements session = .ok entries s')
    (hend : s'.atEnd = true) :
    Parser.program session = .ok (.ofList (entries.filterMap (·.1)))
      { s' with diagnostics := s'.diagnostics ++ Parser.passNotes entries } := by
  have hblock : Parser.statementBlock session = _ := Parser.block_run session h
  have hat : Session.atEnd { s' with
    diagnostics := s'.diagnostics ++ Parser.passNotes entries } = true := hend
  simp [Parser.program, hblock, hat]

theorem program_of_braced (h : Parser.full .statements session = .ok entries s')
    (hmore : s'.atEnd = false) :
    Parser.program session =
      .error (.rejected ⟨.invalidStatementStart s'.cursor.current.text, s'.cursor.current.line⟩)
        { s' with diagnostics := s'.diagnostics ++ Parser.passNotes entries } := by
  have hblock : Parser.statementBlock session = _ := Parser.block_run session h
  have hat : Session.atEnd { s' with
    diagnostics := s'.diagnostics ++ Parser.passNotes entries } = false := hmore
  simp [Parser.program, hblock, hat]

theorem program_of_failed {failure : Failure}
    (h : Parser.full .statements session = .error failure s') :
    Parser.program session = .error failure s' := by
  simp [Parser.program, Parser.statementBlock, Parser.block, h]

end Programs

/-- What a run returns is what the loop has led to. -/
theorem reaches_of_ofSession {options : Options} {session : Session} {output : Output}
    (h : ofSession options session = .ok output) :
    ∃ rounds last later, Reaches options.errorBudget rounds {} session last later ∧
      output.program = last.program := by
  unfold ofSession at h
  cases hread : readStatements options.errorBudget (session.cursor.size + 1) {} session with
  | error failure => simp [hread, bind, Except.bind] at h
  | ok result =>
    obtain ⟨last, later⟩ := result
    obtain ⟨rounds, hreaches⟩ := reaches_of_readStatements hread
    obtain rfl : _ = output := by simpa [hread, bind, Except.bind, pure, Except.pure] using h
    exact ⟨rounds, last, later, hreaches, rfl⟩

/-- A run over a text is one over its tokens. -/
theorem ofText_of_tokens {text : String} {tokens : List Token} (h : Token.ofText text = .ok tokens)
    (options : Options) : ofText options text = ofSession options (.ofTokens tokens) := by
  simp [ofText, Session.ofText, h, Except.map]

/-- What a run without symbols returns is what the loop has collected. -/
theorem ofSession_eq {options : Options} (hsymbols : options.registersSymbols = false)
    (session : Session) :
    ofSession options session =
      (readStatements options.errorBudget (session.cursor.size + 1) {} session).map
        fun result =>
          { program := result.1.program, symbols := SymbolTable.empty,
            diagnostics := diagnosticsOf result.1 result.2, errors := result.1.errors } := by
  unfold ofSession symbolsOf
  cases readStatements options.errorBudget (session.cursor.size + 1) {} session with
  | error failure => rfl
  | ok result => simp [bind, Except.bind, pure, Except.pure, Except.map, hsymbols]

/-- The first error of a statement that the loop meets. -/
def FirstError (budget : ℕ) (session : Session) (error : CompileError) : Prop :=
  ∃ rounds progress here there, Reaches budget rounds {} session progress here ∧
    progress.errors = [] ∧ here.atEnd = false ∧
    Parser.topLevelStatement here = .error (.rejected error) there

/-- What a run returns begins with the first error that the loop meets. -/
theorem FirstError.head?_errors {options : Options} (hsymbols : options.registersSymbols = false)
    {session : Session} {error : CompileError}
    (h : FirstError options.errorBudget session error) {output : Output}
    (hrun : ofSession options session = .ok output) : output.errors.head? = some error := by
  obtain ⟨rounds, progress, here, there, hreaches, hnone, hmore, hstops⟩ := h
  rw [ofSession_eq hsymbols] at hrun
  cases hread : readStatements options.errorBudget (session.cursor.size + 1) {} session with
  | error failure => simp [hread, Except.map] at hrun
  | ok result =>
    obtain ⟨error', heq, hkept⟩ := errors_of_failed hreaches hmore hstops hread
    obtain rfl : error = error' := by simpa using heq
    obtain rfl : _ = output := by simpa [hread, Except.map] using hrun
    rw [hnone] at hkept
    obtain ⟨more, hmore⟩ := hkept
    show result.1.errors.head? = _
    rw [← hmore]
    rfl

/-- The reading of a program in one go and the loop, compared from a session with nothing noted. -/
theorem outcome_program (budget : ℕ) {session : Session} (hs : session.Tidy) :
    Outcome budget {} session (Parser.full .statements session) :=
  outcome_statements ⟨rfl, rfl⟩ hs (Parser.rank_le_stepsFor .statements session)

/-- Without errors, the loop ends within its rounds, with the program and the notes of the block. -/
theorem readStatements_of_ended {session s' : Session} {entries : List (Option Statement × ℕ)}
    (h : Outcome budget {} session (.ok entries s')) (hend : s'.atEnd = true) :
    ∃ progress later,
      readStatements budget (session.cursor.size + 1) {} session = .ok (progress, later) ∧
      progress.program = .ofList (entries.filterMap (·.1)) ∧ progress.errors = [] ∧
      diagnosticsOf progress later = s'.diagnostics ++ Parser.passNotes entries := by
  cases h with
  | @ended _ rounds _ t' hat hlevel hfew hreaches =>
    have hat' : t'.atEnd = true := by rw [Session.atEnd, ← hlevel.1]; exact hat
    have hrounds : rounds < session.cursor.size + 1 := by
      have hleft : session.left ≤ session.cursor.ahead.length :=
        (List.takeWhile_sublist _).length_le
      simp only [Cursor.ahead, List.length_cons] at hleft
      unfold Cursor.size
      omega
    obtain ⟨others, hothers⟩ := Nat.exists_eq_add_of_lt hrounds
    refine ⟨entries.foldl Progress.add {}, t', ?_, ?_, ?_, ?_⟩
    · rw [hothers, Nat.add_assoc, readStatements_of_reaches hreaches, readStatements, if_pos hat']
    · rw [program_foldl_add]
      rfl
    · rw [errors_foldl_add]
    · rw [diagnosticsOf, ← hlevel.2, program_foldl_add, passes_foldl_add, List.nil_append]
      rfl
  | braced hmore => rw [hend] at hmore; cases hmore

/-- Where the parser of a program succeeds, so does a run without symbols, with the same results. -/
theorem ofSession_of_program {options : Options} (hsymbols : options.registersSymbols = false)
    {session later : Session} (hs : session.Tidy) {program : Block}
    (h : Parser.program session = .ok program later) :
    ∃ output, ofSession options session = .ok output ∧ output.errors = [] ∧
      output.program = program ∧ output.diagnostics = later.diagnostics := by
  have hout := outcome_program options.errorBudget hs
  cases hfull : Parser.full .statements session with
  | error failure s' =>
    rw [program_of_failed hfull] at h
    cases h
  | ok entries s' =>
    cases hend : s'.atEnd with
    | false =>
      rw [program_of_braced hfull hend] at h
      cases h
    | true =>
      rw [program_of_ended hfull hend] at h
      injection h with hprogram hlater
      rw [hfull] at hout
      obtain ⟨progress, last, hread, hsame, hnone, hnotes⟩ := readStatements_of_ended hout hend
      rw [ofSession_eq hsymbols, hread]
      refine ⟨_, rfl, hnone, hsame.trans hprogram, ?_⟩
      rw [← hlater]
      exact hnotes

/-- Where the parser of a program stops with an error, the loop meets that error first. -/
theorem firstError_of_program {budget : ℕ} {session later : Session} (hs : session.Tidy)
    {error : CompileError} (h : Parser.program session = .error (.rejected error) later) :
    FirstError budget session error := by
  have hout := outcome_program budget hs
  cases hfull : Parser.full .statements session with
  | error failure s' =>
    rw [program_of_failed hfull] at h
    injection h with hfailure
    subst hfailure
    rw [hfull] at hout
    cases hout with
    | failed hreaches hmore hstops =>
      exact ⟨_, _, _, _, hreaches, errors_foldl_add _ _, hmore, hstops⟩
  | ok entries s' =>
    rw [hfull] at hout
    cases hout with
    | ended hend =>
      rw [program_of_ended hfull hend] at h
      cases h
    | braced hmore hreaches hmore' hstops =>
      rw [program_of_braced hfull hmore] at h
      injection h with hfailure
      injection hfailure with herror
      subst herror
      exact ⟨_, _, _, _, hreaches, errors_foldl_add _ _, hmore', hstops⟩

theorem full_statements_of_unfinished {session later : Session}
    (h : Parser.program session = .error .unfinished later) :
    Parser.full .statements session = .error .unfinished later := by
  cases hfull : Parser.full .statements session with
  | error failure s' =>
    rw [program_of_failed hfull] at h
    cases h
    rfl
  | ok entries s' =>
    cases hend : s'.atEnd with
    | true =>
      rw [program_of_ended hfull hend] at h
      cases h
    | false =>
      rw [program_of_braced hfull hend] at h
      cases h

/-- A run without symbols that returns no error has a program that the parser reads. -/
theorem program_of_ofSession {options : Options} (hsymbols : options.registersSymbols = false)
    {session : Session} (hs : session.Tidy) {output : Output}
    (hrun : ofSession options session = .ok output) (hnone : output.errors = []) :
    ∃ program later, Parser.program session = .ok program later := by
  cases h : Parser.program session with
  | ok program later => exact ⟨program, later, rfl⟩
  | error failure later =>
    exfalso
    cases failure with
    | rejected error =>
      have hfirst := (firstError_of_program hs h).head?_errors hsymbols hrun
      rw [hnone] at hfirst
      cases hfirst
    | unfinished =>
      have hout := outcome_program options.errorBudget hs
      rw [ofSession_eq hsymbols] at hrun
      cases hread : readStatements options.errorBudget (session.cursor.size + 1) {} session with
      | error failure => simp [hread, Except.map] at hrun
      | ok result =>
        rw [full_statements_of_unfinished h] at hout
        cases hout with
        | failed hreaches hmore hstops =>
          obtain ⟨error, herror, -⟩ := errors_of_failed hreaches hmore hstops hread
          cases herror

/-- Parsing a program and running over it without collecting symbols agree: the one succeeds
    exactly if the other returns no error, with the same program and the same diagnostics, and the
    error of the parser is the first one that the run meets. This holds for every error budget. -/
theorem compile_iff_program {options : Options} (hsymbols : options.registersSymbols = false)
    {text : String} {session : Session} (htext : Session.ofText text = .ok session) :
    (∀ program diagnostics,
      (∃ later, Parser.program session = .ok program later ∧ later.diagnostics = diagnostics) ↔
        ∃ output, ofText options text = .ok output ∧ output.errors = [] ∧
          output.program = program ∧ output.diagnostics = diagnostics) ∧
    ∀ error later, Parser.program session = .error (.rejected error) later →
      FirstError options.errorBudget session error ∧
        ∀ output, ofText options text = .ok output → output.errors.head? = some error := by
  have hs : session.Tidy := Session.tidy_ofText htext
  have hsame : ofText options text = ofSession options session := by
    simp only [ofText, htext]
  rw [hsame]
  refine ⟨fun program diagnostics => ⟨?_, ?_⟩, fun error later h => ?_⟩
  · rintro ⟨later, h, rfl⟩
    exact ofSession_of_program hsymbols hs h
  · rintro ⟨output, hrun, hnone, rfl, rfl⟩
    obtain ⟨program, later, h⟩ := program_of_ofSession hsymbols hs hrun hnone
    obtain ⟨output', hrun', -, hprogram, hdiagnostics⟩ := ofSession_of_program hsymbols hs h
    obtain rfl : output = output' := by
      rw [hrun] at hrun'
      exact Except.ok.inj hrun'
    exact ⟨later, h.trans (by rw [hprogram]), hdiagnostics.symm⟩
  · have hfirst : FirstError options.errorBudget session error := firstError_of_program hs h
    exact ⟨hfirst, fun output hrun => hfirst.head?_errors hsymbols hrun⟩

/-- The text `@f();; pass;` is compiled without errors, to what the parser reads and with a note on
    the `pass`. -/
theorem compile_iff_program_pass :
    ∃ session later output, Session.ofText "@f();; pass;" = .ok session ∧
      Parser.program session = .ok output.program later ∧
      later.diagnostics = [.note Parser.passNote 1] ∧
      ofText { registersSymbols := false } "@f();; pass;" = .ok output ∧
      output.errors = [] ∧ output.diagnostics = [.note Parser.passNote 1] := by
  obtain ⟨text, htext⟩ : ∃ text, text = "@f();; pass;" := ⟨_, rfl⟩
  have hreads : (match Session.ofText text with
      | .error _ => false
      | .ok session => match Parser.program session with
        | .error _ _ => false
        | .ok _ later => later.diagnostics == [.note Parser.passNote 1]) = true := by
    rw [htext]
    decide +kernel
  rw [← htext]
  cases hsession : Session.ofText text with
  | error error => simp [hsession] at hreads
  | ok session =>
    cases hprogram : Parser.program session with
    | error failure later => simp [hsession, hprogram] at hreads
    | ok program later =>
      have hnotes : later.diagnostics = [.note Parser.passNote 1] := by
        simpa [hsession, hprogram] using hreads
      obtain ⟨output, hrun, hnone, rfl, hsame⟩ :=
        ((compile_iff_program (show Options.registersSymbols { registersSymbols := false } = false
          from rfl) hsession).1 program later.diagnostics).1 ⟨later, hprogram, rfl⟩
      exact ⟨session, later, output, rfl, hprogram, hnotes, hrun, hnone, hsame.trans hnotes⟩

end Compilation

end SinFrontend
