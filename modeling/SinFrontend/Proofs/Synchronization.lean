import SinFrontend.Proofs.Compilation
import SinFrontend.Proofs.Onward.Statements

/-!
# Rounds move on

A statement that fails is passed over from its first token on. However far its reading came, the
cursor then stands further on than where the statement began, so no round of the loop over the
statements leaves it where it was.

* `Forward.synchronize`: passing over a failed statement ends behind its first token.
* `round_forward`: a round moves on by at least one token.
* `readStatements_rounds`: more rounds than there are tokens left make no difference.
-/

namespace SinFrontend

namespace Session

variable {s t later : Session}

/-! ## Several moves -/

theorem Tidy.past_advance (hs : s.Tidy) : (s.on .advance).past = s.past + min 1 s.left := by
  by_cases hend : s.atEnd = true
  · rw [on_advance_of_atEnd hend, left_eq_zero_iff.mpr hend]
    rfl
  · have heof : s.cursor.current.kind ≠ .eof := by simpa [atEnd, Cursor.atEnd] using hend
    obtain ⟨next, rest, -, hadvance⟩ := hs.advance_eq heof
    have hleft := left_pos_iff.mpr heof
    rw [past, on, hadvance, List.length_cons, past]
    omega

/-- Several tokens forward, as far as there are tokens. -/
theorem Tidy.advanceBy (hs : s.Tidy) (count : ℕ) :
    s.Forward (min count s.left) (s.on (·.advanceBy count)) ∧
      (s.on (·.advanceBy count)).past = s.past + min count s.left := by
  induction count generalizing s with
  | zero => exact ⟨(Forward.refl hs).weaken (by omega), by simp [past, on, Cursor.advanceBy]⟩
  | succ count ih =>
    have hfirst := Forward.advance_min hs
    have hpast := hs.past_advance
    have htotal := hfirst.total
    obtain ⟨hmore, hpast'⟩ := ih hfirst.tidy
    have hsame : (s.on .advance).on (·.advanceBy count) = s.on (·.advanceBy (count + 1)) := rfl
    rw [hsame] at hmore hpast'
    exact ⟨(hfirst.trans hmore).weaken (by omega), by omega⟩

/-- Going back to a place that was passed. -/
theorem Tidy.retreatTo {count : ℕ} (hs : s.Tidy) (h : count ≤ s.past) :
    (s.on (·.retreatTo count)).Tidy ∧ (s.on (·.retreatTo count)).past = count ∧
      (s.on (·.retreatTo count)).past + (s.on (·.retreatTo count)).left = s.past + s.left := by
  suffices hgo : ∀ (steps : ℕ) {s : Session}, s.Tidy → steps ≤ s.past →
      (s.on (Cursor.retreatTo.go steps)).Tidy ∧
        (s.on (Cursor.retreatTo.go steps)).past + steps = s.past ∧
        (s.on (Cursor.retreatTo.go steps)).past + (s.on (Cursor.retreatTo.go steps)).left =
          s.past + s.left by
    obtain ⟨htidy, hpast, htotal⟩ := hgo (s.past - count) hs (Nat.sub_le _ _)
    have hsame : s.on (Cursor.retreatTo.go (s.past - count)) = s.on (·.retreatTo count) := rfl
    rw [hsame] at htidy hpast htotal
    exact ⟨htidy, by omega, htotal⟩
  intro steps
  induction steps with
  | zero => exact fun hs _ => ⟨hs, rfl, rfl⟩
  | succ steps ih =>
    intro s hs hsteps
    obtain ⟨htidy, hpast, hleft⟩ := hs.retreat (by omega)
    obtain ⟨htidy', hpast', htotal'⟩ := ih htidy (by omega)
    have hsame : (s.on .retreat).on (Cursor.retreatTo.go steps) =
        s.on (Cursor.retreatTo.go (steps + 1)) := rfl
    rw [hsame] at htidy' hpast' htotal'
    exact ⟨htidy', by omega, by omega⟩

/-! ## Passing over a statement -/

theorem statementLength_pos {token : Token} (rest : List Token) (h : token.kind ≠ .eof) :
    0 < Cursor.statementLength 0 (token :: rest) := by
  have hmore : (token.kind == Token.Kind.eof) = false := by simpa using h
  simp only [Cursor.statementLength, hmore]
  grind

/-- A failed statement is passed over by at least its first token, wherever it failed. -/
theorem Forward.synchronize {count : ℕ} (h : s.Forward count later)
    (hstart : later.statementStart = s.past) (hmore : 0 < s.left) :
    s.Forward 1 later.synchronize := by
  have hpast := h.past_le
  have htotal := h.total
  obtain ⟨htidy, hback, hsame⟩ := h.tidy.retreatTo (hstart.trans_le (by omega))
  set start := later.on (·.retreatTo later.statementStart)
  have hleft : start.left = s.left := by omega
  have hpos : 0 < Cursor.statementLength 0 start.cursor.ahead :=
    statementLength_pos start.cursor.rest (left_pos_iff.mp (by omega))
  have hskip : start.Forward 1 later.synchronize :=
    (htidy.advanceBy (Cursor.statementLength 0 start.cursor.ahead)).1.weaken (by omega)
  exact ⟨hskip.tidy, by have := hskip.total; omega, by have := hskip.near; omega⟩

/-- Passing over a statement leaves a tidy session, wherever the statement began. -/
theorem Tidy.synchronize (hs : s.Tidy) : s.synchronize.Tidy := by
  have hback : (s.on (·.retreatTo s.statementStart)).Tidy := by
    rcases Nat.le_total s.statementStart s.past with hle | hle
    · exact (hs.retreatTo hle).1
    · have hnone : s.cursor.passed.length - s.statementStart = 0 := Nat.sub_eq_zero_of_le hle
      rw [on, Cursor.retreatTo, hnone]
      exact hs
  exact (hback.advanceBy _).1.tidy

/-- The session at the statement behind the semicolons that lie ahead. -/
abbrev begun (s : Session) (pending : List Token) (next : Token) (rest : List Token) : Session :=
  { s.behind pending next rest with
    statementStart := (pending.reverse ++ s.cursor.passed).length }

variable {pending rest : List Token} {next : Token}

theorem Pending.forward_begun (h : s.Pending pending next rest) (hs : s.Tidy) :
    s.Forward pending.length (s.begun pending next rest) :=
  let hfwd := h.forward hs
  ⟨⟨hfwd.tidy.closed, hfwd.tidy.passed⟩, hfwd.total, hfwd.near⟩

theorem Pending.tokens_begun (h : s.Pending pending next rest) :
    (s.begun pending next rest).cursor.tokens = s.cursor.tokens := by
  rw [Cursor.tokens, Cursor.tokens, h.ahead]
  simp [between, Cursor.between, Cursor.ahead]

/-- Only semicolons in front of the end of input lead to it, if it is not reached yet. -/
theorem Pending.ne_nil (h : s.Pending pending next rest) (hmore : s.atEnd = false)
    (hnext : next.kind = .eof) : pending ≠ [] := by
  rintro rfl
  have hcurrent : s.cursor.current = next := (List.cons.inj h.ahead).1
  simp [atEnd, Cursor.atEnd, hcurrent, hnext] at hmore

/-- Passing over a statement changes no token. -/
theorem tokens_synchronize (s : Session) : s.synchronize.cursor.tokens = s.cursor.tokens :=
  (Cursor.tokens_advanceBy _ _).trans (Cursor.tokens_retreatTo _ _)

end Session

namespace Compilation

variable {budget : ℕ} {progress next last : Progress} {s later : Session}
  {pending rest : List Token} {token : Token}

/-! ## Rounds -/

/-- Where a statement is left, its reading ends onward of it, with its first token read. -/
theorem topLevelStatement_onward (hs : s.Tidy) (h : s.Pending pending token rest)
    (htoken : token.kind ≠ .eof) :
    Parser.EndsOnward True ((s.begun pending token rest).on .advance) (fun _ _ => True)
      (Parser.topLevelStatement s) := by
  rw [topLevelStatement_eq h, if_neg htoken]
  exact (Parser.descend_leadsAll _).statement false (h.forward_begun hs).tidy

/-- Where no statement is left, none fails. -/
theorem kind_ne_eof_of_rejected {error : CompileError} (h : s.Pending pending token rest)
    (hfails : Parser.topLevelStatement s = .error (.rejected error) later) :
    token.kind ≠ .eof := by
  intro htoken
  rw [topLevelStatement_eq h, if_pos htoken] at hfails
  cases hfails

/-- A statement that fails has begun at or behind where its round began, and is passed over. -/
theorem synchronize_forward {error : CompileError} (hs : s.Tidy)
    (h : Parser.topLevelStatement s = .error (.rejected error) later) :
    s.past ≤ later.statementStart ∧ later.statementStart < later.synchronize.past ∧
      s.Forward 1 later.synchronize := by
  obtain ⟨pending, token, rest, hpending⟩ := hs.exists_pending
  have htoken := kind_ne_eof_of_rejected hpending h
  have hbegun := hpending.forward_begun hs
  have honward := (topLevelStatement_onward hs hpending htoken).of_rejected h
  have hfwd := (Session.Onward.trans (.advance .refl) honward).forward hbegun.tidy
  have hstart : later.statementStart = (s.begun pending token rest).past := honward.statementStart
  have hsync := hfwd.synchronize hstart (Session.left_pos_iff.mpr htoken)
  have hpast := hbegun.past_le
  have hpast' := hsync.past_le
  exact ⟨by omega, by omega, (hbegun.trans hsync).weaken (by omega)⟩

/-- A statement that is read moves on, as do the semicolons in front of the end of input. -/
theorem topLevelStatement_forward {statement : Option Statement} (hs : s.Tidy)
    (hmore : s.atEnd = false) (h : Parser.topLevelStatement s = .ok statement later) :
    s.Forward 1 later := by
  obtain ⟨pending, token, rest, hpending⟩ := hs.exists_pending
  by_cases htoken : token.kind = .eof
  · rw [topLevelStatement_eq hpending, if_pos htoken] at h
    obtain rfl : s.behind pending token rest = later := by injection h
    exact (hpending.forward hs).weaken (List.length_pos_iff.mpr (hpending.ne_nil hmore htoken))
  · have honward := ((topLevelStatement_onward hs hpending htoken).of_ok h).1
    have hbegun := hpending.forward_begun hs
    have hfirst := Session.Forward.advance hbegun.tidy htoken
    exact ((hbegun.trans hfirst).trans (honward.forward hfirst.tidy)).weaken (by omega)

/-- A statement leaves all tokens but closing brackets as they are, also if it fails. -/
theorem topLevelStatement_map_solid? (hs : s.Tidy) :
    (∀ statement, Parser.topLevelStatement s = .ok statement later →
      later.cursor.tokens.map Token.solid? = s.cursor.tokens.map Token.solid?) ∧
    ∀ error, Parser.topLevelStatement s = .error (.rejected error) later →
      later.cursor.tokens.map Token.solid? = s.cursor.tokens.map Token.solid? := by
  obtain ⟨pending, token, rest, hpending⟩ := hs.exists_pending
  by_cases htoken : token.kind = .eof
  · rw [topLevelStatement_eq hpending, if_pos htoken]
    refine ⟨fun statement h => ?_, fun error h => by cases h⟩
    obtain rfl : s.behind pending token rest = later := by injection h
    exact congrArg _ hpending.tokens_begun
  · have hends := topLevelStatement_onward hs hpending htoken
    have hkeeps (h : ((s.begun pending token rest).on .advance).Onward later) :
        later.cursor.tokens.map Token.solid? = s.cursor.tokens.map Token.solid? := by
      rw [h.map_solid?, ← hpending.tokens_begun]
      exact congrArg _ (Cursor.tokens_advance _)
    exact ⟨fun statement h => hkeeps (hends.of_ok h).1, fun error h => hkeeps (hends.of_rejected h)⟩

/-- A round that goes well reads a statement, or passes over one that fails within the budget. -/
theorem round_cases (h : round budget progress s = .ok (next, later)) :
    (∃ statement, Parser.topLevelStatement s = .ok statement later ∧
      next.errors = progress.errors ∧
      next.program = statement.elim progress.program progress.program.push) ∨
    ∃ error failed, Parser.topLevelStatement s = .error (.rejected error) failed ∧
      progress.errors.length < budget ∧
      next = { progress with errors := progress.errors ++ [error] } ∧
      later = failed.synchronize := by
  unfold round at h
  split at h
  next hok =>
    obtain ⟨rfl, rfl⟩ : _ = next ∧ _ = later := by simpa using h
    exact .inl ⟨_, hok, rfl, rfl⟩
  next hok =>
    obtain ⟨rfl, rfl⟩ : _ = next ∧ _ = later := by simpa using h
    exact .inl ⟨_, hok, by split <;> rfl, by split <;> rfl⟩
  next herror =>
    simp only at h
    split at h
    · cases h
    next hbudget =>
      obtain ⟨rfl, rfl⟩ : _ = next ∧ _ = later := by simpa using h
      rw [List.length_append, List.length_singleton] at hbudget
      exact .inr ⟨_, _, herror, by omega, rfl, rfl⟩
  next => cases h

/-- A round moves on, whether its statement fails or not. -/
theorem round_forward (hs : s.Tidy) (hmore : s.atEnd = false)
    (h : round budget progress s = .ok (next, later)) : s.Forward 1 later := by
  rcases round_cases h with ⟨statement, hok, -⟩ | ⟨error, failed, hfails, -, -, rfl⟩
  · exact topLevelStatement_forward hs hmore hok
  · exact (synchronize_forward hs hfails).2.2

/-- A round leaves all tokens but closing brackets as they are. -/
theorem round_map_solid? (hs : s.Tidy) (h : round budget progress s = .ok (next, later)) :
    later.cursor.tokens.map Token.solid? = s.cursor.tokens.map Token.solid? := by
  rcases round_cases h with ⟨statement, hok, -⟩ | ⟨error, failed, hfails, -, -, rfl⟩
  · exact (topLevelStatement_map_solid? hs).1 statement hok
  · rw [failed.tokens_synchronize]
    exact (topLevelStatement_map_solid? hs).2 error hfails

theorem Reaches.forward {rounds : ℕ} (h : Reaches budget rounds progress s last later)
    (hs : s.Tidy) : s.Forward rounds later := by
  induction h with
  | refl => exact .refl hs
  | round more first _ ih =>
    have hfirst := round_forward hs more first
    exact (hfirst.trans (ih hfirst.tidy)).weaken (by omega)

/-- The rounds of a run are more than the tokens that are left. -/
theorem left_lt_size (s : Session) : s.left < s.cursor.size + 1 := by
  have hlength : s.left ≤ s.cursor.ahead.length := (List.takeWhile_sublist _).length_le
  simp only [Cursor.ahead, List.length_cons] at hlength
  unfold Cursor.size
  omega

/-- More rounds than there are tokens left make no difference. -/
theorem readStatements_rounds {rounds rounds' : ℕ} (hs : s.Tidy) (h : s.left < rounds)
    (h' : s.left < rounds') :
    readStatements budget rounds progress s = readStatements budget rounds' progress s := by
  induction rounds generalizing rounds' progress s with
  | zero => omega
  | succ rounds ih =>
    obtain ⟨rounds', rfl⟩ : ∃ more, rounds' = more + 1 := ⟨rounds' - 1, by omega⟩
    rw [readStatements, readStatements]
    cases hmore : s.atEnd with
    | true => rfl
    | false =>
      cases hround : round budget progress s with
      | error failure => rfl
      | ok result =>
        obtain ⟨next, later⟩ := result
        have hfwd := round_forward hs hmore hround
        have := hfwd.near
        exact ih hfwd.tidy (by omega) (by omega)

end Compilation

end SinFrontend
