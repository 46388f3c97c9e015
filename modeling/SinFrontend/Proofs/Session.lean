import Mathlib.Order.Filter.AtTopBot.Basic
import SinFrontend.Parser.Descent

/-!
# Places of a session

How far a session is from the end of its input, and how parsers move it.

A session is tidy if an end of input lies ahead of its cursor and none behind it; sessions over
lexed texts are. `Session.left` counts the tokens that can still be read, `Session.past` those
that have been read. On tidy sessions `advance` turns one of the former into one of the latter and
`retreat` turns it back, so their sum never changes.

* `Session.Forward`: a session has moved on from another one by at least `count` tokens.
* `Forward.trans`: moves add up.
-/

namespace SinFrontend

namespace Session

/-- The session with its cursor moved. -/
def on (session : Session) (step : Cursor → Cursor) : Session :=
  { session with cursor := step session.cursor }

/-- How many tokens can still be read. -/
def left (session : Session) : ℕ :=
  (session.cursor.ahead.takeWhile (·.kind != .eof)).length

/-- How many tokens lie before the cursor. -/
def past (session : Session) : ℕ :=
  session.cursor.passed.length

/-- An end of input lies ahead and none behind. -/
structure Tidy (session : Session) : Prop where
  closed : ∃ token ∈ session.cursor.ahead, token.kind = .eof
  passed : ∀ token ∈ session.cursor.passed, token.kind ≠ .eof

/-- `later` is tidy, stands over the same tokens as `session`, and stands at least `count` tokens
    further on. -/
structure Forward (count : ℕ) (session later : Session) : Prop where
  tidy : later.Tidy
  total : later.past + later.left = session.past + session.left
  near : later.left + count ≤ session.left

variable {session middle later : Session} {token : Token}

theorem tidy_ofTokens (tokens : List Token) : (Session.ofTokens tokens).Tidy := by
  cases tokens with
  | nil => exact ⟨⟨_, List.mem_cons_self, rfl⟩, by simp [ofTokens, Cursor.ofTokens]⟩
  | cons first rest =>
    refine ⟨?_, by simp [ofTokens, Cursor.ofTokens]⟩
    by_cases hlast : (rest.getLast?.getD first).kind = .eof
    · refine ⟨rest.getLast?.getD first, ?_, hlast⟩
      cases hrest : rest.getLast? with
      | none => exact List.mem_cons_self
      | some last =>
        refine List.mem_cons_of_mem _ ?_
        rw [hrest] at hlast
        simpa [ofTokens, Cursor.ofTokens, hrest, show last.kind = .eof from hlast]
          using List.mem_of_getLast? hrest
    · exact ⟨Token.eof (rest.getLast?.getD first).line, by
        simp [ofTokens, Cursor.ofTokens, Cursor.ahead, hlast], rfl⟩

theorem exists_tokens_of_ofText {text : String} (h : Session.ofText text = .ok session) :
    ∃ tokens, Token.ofText text = .ok tokens ∧ Session.ofTokens tokens = session := by
  unfold Session.ofText at h
  cases htokens : Token.ofText text with
  | error error => simp [htokens, Except.map] at h
  | ok tokens => exact ⟨tokens, rfl, by simpa [htokens, Except.map] using h⟩

theorem tidy_ofText {text : String} (h : Session.ofText text = .ok session) : session.Tidy := by
  obtain ⟨tokens, -, rfl⟩ := exists_tokens_of_ofText h
  exact tidy_ofTokens tokens

/-! ## Moves -/

theorem Forward.refl (h : session.Tidy) : Forward 0 session session :=
  ⟨h, rfl, le_rfl⟩

theorem Forward.trans {m n : ℕ} (h₁ : Forward m session middle) (h₂ : Forward n middle later) :
    Forward (m + n) session later := by
  refine ⟨h₂.tidy, h₂.total.trans h₁.total, ?_⟩
  have := h₁.near
  have := h₂.near
  omega

theorem Forward.weaken {m n : ℕ} (h : Forward n session later) (hle : m ≤ n) :
    Forward m session later :=
  ⟨h.tidy, h.total, by have := h.near; omega⟩

theorem Forward.left_le {n : ℕ} (h : Forward n session later) : later.left ≤ session.left := by
  have := h.near
  omega

theorem Forward.past_le {n : ℕ} (h : Forward n session later) : session.past + n ≤ later.past := by
  have := h.near
  have := h.total
  omega

theorem Forward.past_pos {n : ℕ} (h : Forward n session later) (hpast : 0 < session.past) :
    0 < later.past := by
  have := h.past_le
  omega

theorem left_eq_zero_iff : session.left = 0 ↔ session.atEnd = true := by
  simp only [left, Cursor.ahead, atEnd, Cursor.atEnd, List.takeWhile_cons]
  cases h : session.cursor.current.kind == Token.Kind.eof <;> simp_all

theorem left_pos_iff : 0 < session.left ↔ session.cursor.current.kind ≠ .eof := by
  rw [Nat.pos_iff_ne_zero, ne_eq, left_eq_zero_iff]
  simp [atEnd, Cursor.atEnd]

theorem ready_of_ahead {rest : List Token} (hahead : session.cursor.ahead = token :: rest)
    (hkind : token.kind ≠ .eof) : 0 < session.past + session.left :=
  Nat.add_pos_right _ (left_pos_iff.mpr ((List.cons.inj hahead).1 ▸ hkind))

theorem on_advance_of_atEnd (h : session.atEnd = true) : session.on .advance = session := by
  have : session.cursor.atEnd = true := h
  simp [on, Cursor.advance, this]

theorem Tidy.exists_rest (hs : session.Tidy) (h : session.cursor.current.kind ≠ .eof) :
    ∃ next rest, session.cursor.rest = next :: rest := by
  obtain ⟨token, hmem, hkind⟩ := hs.closed
  rcases List.mem_cons.mp hmem with rfl | hmem
  · exact absurd hkind h
  · cases hrest : session.cursor.rest with
    | nil => rw [hrest] at hmem; cases hmem
    | cons next rest => exact ⟨next, rest, rfl⟩

/-- Away from the end of input, `advance` puts the current token behind the cursor. -/
theorem Tidy.advance_eq (hs : session.Tidy) (h : session.cursor.current.kind ≠ .eof) :
    ∃ next rest, session.cursor.rest = next :: rest ∧
      session.cursor.advance = ⟨session.cursor.current :: session.cursor.passed, next, rest⟩ := by
  obtain ⟨next, rest, hrest⟩ := hs.exists_rest h
  refine ⟨next, rest, hrest, ?_⟩
  have : session.cursor.atEnd = false := by simpa [Cursor.atEnd] using h
  simp [Cursor.advance, this, hrest]

theorem Forward.advance (hs : session.Tidy) (h : session.cursor.current.kind ≠ .eof) :
    Forward 1 session (session.on .advance) := by
  obtain ⟨next, rest, hrest, hadv⟩ := hs.advance_eq h
  have hleft : session.left = (session.on .advance).left + 1 := by
    simp [left, on, hadv, Cursor.ahead, hrest, List.takeWhile_cons, h]
  have hpast : (session.on .advance).past = session.past + 1 := by simp [past, on, hadv]
  refine ⟨⟨?_, ?_⟩, by omega, by omega⟩
  · obtain ⟨token, hmem, hkind⟩ := hs.closed
    rcases List.mem_cons.mp hmem with rfl | hmem
    · exact absurd hkind h
    · exact ⟨token, by simpa [on, hadv, Cursor.ahead, hrest] using hmem, hkind⟩
  · intro token hmem
    simp only [on, hadv, List.mem_cons] at hmem
    rcases hmem with rfl | hmem
    · exact h
    · exact hs.passed token hmem

/-- Away from the end of input, `advance` puts the current token before the cursor. -/
theorem Tidy.advance_previous (hs : session.Tidy) (h : session.cursor.current.kind ≠ .eof) :
    (session.on .advance).cursor.previous = session.cursor.current := by
  obtain ⟨next, rest, -, hadv⟩ := hs.advance_eq h
  simp [on, hadv, Cursor.previous]

/-- A token that is ahead is read. -/
theorem Tidy.advance_ahead (hs : session.Tidy) {rest : List Token}
    (hahead : session.cursor.ahead = token :: rest) (hkind : token.kind ≠ .eof) :
    (session.on .advance).Tidy ∧ (session.on .advance).cursor.ahead = rest ∧
      (session.on .advance).cursor.previous = token := by
  obtain ⟨rfl, rfl⟩ := List.cons.inj hahead
  obtain ⟨next, others, hrest, hadvance⟩ := hs.advance_eq hkind
  refine ⟨(Forward.advance hs hkind).tidy, ?_, hs.advance_previous hkind⟩
  rw [hrest]
  simp [on, hadvance, Cursor.ahead]

/-- `advance` never goes back, and it moves unless all tokens have been read. -/
theorem Forward.advance_min (hs : session.Tidy) :
    Forward (min 1 session.left) session (session.on .advance) := by
  by_cases h : session.cursor.current.kind = .eof
  · have hend : session.atEnd = true := by simp [atEnd, Cursor.atEnd, h]
    rw [on_advance_of_atEnd hend]
    exact (Forward.refl hs).weaken (by rw [left_eq_zero_iff.mpr hend]; simp)
  · exact (Forward.advance hs h).weaken (by omega)

theorem tidy_advance (hs : session.Tidy) : (session.on .advance).Tidy :=
  (Forward.advance_min hs).tidy

/-- Going back over a token that was read. -/
theorem Tidy.retreat (hs : session.Tidy) (h : 0 < session.past) :
    (session.on .retreat).Tidy ∧ (session.on .retreat).past + 1 = session.past ∧
      (session.on .retreat).left = session.left + 1 := by
  cases hpassed : session.cursor.passed with
  | nil => simp [past, hpassed] at h
  | cons last passed =>
    have hlast : last.kind ≠ .eof := hs.passed last (by simp [hpassed])
    have hback : session.cursor.retreat =
        ⟨passed, last, session.cursor.current :: session.cursor.rest⟩ := by
      simp [Cursor.retreat, hpassed]
    refine ⟨⟨?_, ?_⟩, ?_, ?_⟩
    · obtain ⟨token, hmem, hkind⟩ := hs.closed
      exact ⟨token, by simpa [on, hback, Cursor.ahead] using .inr (List.mem_cons.mp hmem), hkind⟩
    · intro token hmem
      simp only [on, hback] at hmem
      exact hs.passed token (by simp [hpassed, hmem])
    · simp [past, on, hback, hpassed]
    · simp [left, on, hback, Cursor.ahead, List.takeWhile_cons, hlast]

/-- The token that was read last is ahead again. -/
theorem on_retreat_current (h : 0 < session.past) :
    (session.on .retreat).cursor.current = session.cursor.previous := by
  obtain ⟨last, passed, hpassed⟩ := List.exists_cons_of_length_pos h
  simp [on, Cursor.retreat, Cursor.previous, hpassed]

/-- Where nothing has been read, there is nothing to go back over. -/
theorem on_retreat_of_past (h : session.past = 0) : session.on .retreat = session := by
  have hpassed : session.cursor.passed = [] := List.eq_nil_of_length_eq_zero h
  simp [on, Cursor.retreat, hpassed]

theorem Tidy.on_retreat (hs : session.Tidy) : (session.on .retreat).Tidy := by
  rcases Nat.eq_zero_or_pos session.past with hnone | hpast
  · rwa [on_retreat_of_past hnone]
  · exact (hs.retreat hpast).1

/-- Another text for the current token moves nothing. -/
theorem Forward.replaceText (hs : session.Tidy) (text : String) :
    Forward 0 session (session.on (·.replaceText text)) := by
  have hleft : (session.on (·.replaceText text)).left = session.left := by
    simp only [left, on, Cursor.replaceText, Cursor.ahead, List.takeWhile_cons]
    split <;> rfl
  have hpast : (session.on (·.replaceText text)).past = session.past := rfl
  refine ⟨⟨?_, hs.passed⟩, by omega, by omega⟩
  obtain ⟨token, hmem, hkind⟩ := hs.closed
  rcases List.mem_cons.mp hmem with rfl | hmem
  · exact ⟨_, List.mem_cons_self, hkind⟩
  · exact ⟨token, List.mem_cons_of_mem _ hmem, hkind⟩

end Session

end SinFrontend
