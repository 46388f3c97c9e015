import SinFrontend.Proofs.Descent
import SinFrontend.Proofs.Onward.Statements
import SinFrontend.Proofs.Reading
import SinFrontend.Proofs.Seam.Expressions

/-!
# Texts of expressions

A text that is read completely as an expression in front of a semicolon is read as this expression
wherever it stands in front of a comma or a closing parenthesis, too.

* `Parser.ReadsUpTo`: a parser reads a value up to some tokens.
* `Parser.ReadsWhole`: a text is read completely in front of a semicolon.
* `Parser.ReadsWhole.reads`: it is read alike in front of other marks.
-/

namespace SinFrontend.Parser

/-- A parser reads a value up to some tokens, which are left, in every number of steps from some
    number on. -/
def ReadsUpTo {α : Type} (p : Descent → Parser α) (s : Session) (a : α) (rest : List Token) :
    Prop :=
  ∃ s', (∀ᶠ steps in Filter.atTop, p (descend steps) s = .ok a s') ∧ s'.Tidy ∧
    s'.cursor.ahead = rest

/-- A text is read completely as an expression if a semicolon stands behind it. -/
def ReadsWhole (text : List Token) (value : Expression) : Prop :=
  ∃ semicolon later, semicolon.isPunctuation ";" = true ∧
    expression {} (.ofTokens (text ++ [semicolon])) = .ok value later ∧
    later.cursor.ahead = [semicolon, .eof semicolon.line]

/-- A comma or a closing parenthesis. -/
def IsStop (token : Token) : Prop :=
  token.isPunctuation "," = true ∨ token.isPunctuation ")" = true

theorem IsStop.kind {stop : Token} (h : IsStop stop) : stop.kind = .punctuation :=
  h.elim kind_of_isPunctuation kind_of_isPunctuation

variable {text rest : List Token} {value : Expression} {stop semicolon : Token} {s t : Session}

/-! ## Texts in front of a semicolon -/

theorem cursor_ofTokens_semicolon (h : semicolon.isPunctuation ";" = true) (text : List Token) :
    (Session.ofTokens (text ++ [semicolon])).cursor =
      .between [] (text ++ [semicolon, .eof semicolon.line]) := by
  have heof : semicolon.kind ≠ .eof := by simp [kind_of_isPunctuation h]
  cases text with
  | nil => simp [Session.ofTokens, Cursor.ofTokens, Cursor.between, heof]
  | cons first more => simp [Session.ofTokens, Cursor.ofTokens, Cursor.between, heof]

theorem ahead_between {passed ahead : List Token} (h : ahead ≠ []) :
    (Cursor.between passed ahead).ahead = ahead := by
  cases ahead with
  | nil => exact absurd rfl h
  | cons first more => rfl

theorem passed_between (passed ahead : List Token) :
    (Cursor.between passed ahead).passed = passed := by
  cases ahead <;> rfl

/-- A text is read completely from a session that stands in front of it. -/
theorem ReadsWhole.exists_session (h : ReadsWhole text value) :
    ∃ (semicolon : Token) (s later : Session), semicolon.isPunctuation ";" = true ∧ s.Tidy ∧
      s.cursor.passed = [] ∧ s.cursor.ahead = text ++ [semicolon, .eof semicolon.line] ∧
      expression {} s = .ok value later ∧ later.cursor.ahead = [semicolon, .eof semicolon.line] := by
  obtain ⟨semicolon, later, hsemicolon, hread, hlater⟩ := h
  have hcursor := cursor_ofTokens_semicolon hsemicolon text
  refine ⟨semicolon, _, later, hsemicolon, Session.tidy_ofTokens _, ?_, ?_, hread, hlater⟩
  · rw [hcursor, passed_between]
  · rw [hcursor, ahead_between (by simp)]

/-- No text that is read completely has an end of input inside. -/
theorem ReadsWhole.solid (h : ReadsWhole text value) : ∀ token ∈ text, token.kind ≠ .eof := by
  obtain ⟨semicolon, s, later, hsemicolon, hs, hpassed, hahead, hread, hlater⟩ := h.exists_session
  obtain ⟨honward, -⟩ := (expression_leads {} hs trivial).of_ok hread
  -- As many tokens have been read as the text has, so all of them could be read.
  have hpast : later.past = text.length := by
    have hlength := congrArg List.length honward.map_solid?
    simp only [List.length_map, Cursor.tokens, List.length_append, List.length_reverse, hlater,
      hahead, hpassed, List.length_cons, List.length_nil] at hlength
    unfold Session.past
    omega
  have hleft : s.left = text.length + 1 := by
    have htotal := (honward.forward hs).total
    have hlast : later.left = 1 := by
      simp [Session.left, hlater, kind_of_isPunctuation hsemicolon, Token.eof]
    have hnone : s.past = 0 := by simp [Session.past, hpassed]
    omega
  have hbegins := List.prefix_iff_eq_take.mp
    (List.takeWhile_prefix (l := s.cursor.ahead) (·.kind != .eof))
  intro token hmem
  have hread : token ∈ s.cursor.ahead.takeWhile (·.kind != .eof) := by
    rw [hbegins, show (s.cursor.ahead.takeWhile (·.kind != .eof)).length = _ from hleft, hahead]
    rw [List.take_append, List.take_of_length_le (Nat.le_succ _)]
    exact List.mem_append_left _ hmem
  simpa using List.all_eq_true.mp List.all_takeWhile token hread

/-! ## Texts in front of other marks -/

/-- The seam of a text in front of a semicolon and of the same text in another session. -/
def seamAt (semicolon stop : Token) (hsemicolon : semicolon.isPunctuation ";" = true)
    (hstop : IsStop stop) (rest before : List Token) : Seam where
  semicolon := semicolon
  behind := [.eof semicolon.line]
  stop := stop
  rest := rest
  before := before
  semicolon_form := hsemicolon
  stop_form := hstop
  behind_ne_nil := by simp

/-- A text that is read completely in front of a semicolon is read alike in front of a comma or a
    closing parenthesis, and the mark is left. -/
theorem ReadsWhole.reads (h : ReadsWhole text value) (hstop : IsStop stop) (ht : t.Tidy)
    (hahead : t.cursor.ahead = text ++ stop :: rest) :
    ReadsUpTo (fun parse => parse (.expression {})) t value (stop :: rest) := by
  have hsolid := h.solid
  obtain ⟨semicolon, s, later, hsemicolon, hs, hpassed, halone, hread, hlater⟩ := h.exists_session
  let seam := seamAt semicolon stop hsemicolon hstop rest t.cursor.passed
  have hjoins : seam.Joins text s t :=
    ⟨halone, hahead, by rw [hpassed]; rfl, hsolid, by simp [hpassed]⟩
  have hready {s : Session} {mark : Token} {rest : List Token} (hmark : mark.kind ≠ .eof)
      (hahead : s.cursor.ahead = text ++ mark :: rest) : 0 < s.past + s.left := by
    cases text with
    | nil => exact Session.ready_of_ahead hahead hmark
    | cons first more => exact Session.ready_of_ahead hahead (hsolid first List.mem_cons_self)
  have hreadyS := hready (by simp [Seam.semicolon_kind]) hjoins.alone
  have hreadyT := hready (by simp [hstop.kind]) hahead
  obtain ⟨t', hfull, hahead'⟩ : ∃ t', full (.expression {}) t = .ok value t' ∧
      t'.cursor.ahead = stop :: rest := by
    let steps := (Goal.expression {}).rank s.left + (Goal.expression {}).rank t.left
    have hrun : descend steps (.expression {}) s = .ok value later := by
      rw [← full_eq_descend _ hs hreadyS (Nat.le_add_right _ _)]
      exact hread
    rcases (descend_transfers seam steps).expression {} hjoins hrun with
      ⟨text', t', ht', hjoins'⟩ | ⟨hloose, -⟩
    · refine ⟨t', ?_, ?_⟩
      · rw [full_eq_descend _ ht hreadyT (Nat.le_add_left _ _)]
        exact ht'
      · have hnil : text' = [] := by
          have hlength := congrArg List.length (hlater.symm.trans hjoins'.alone)
          simpa [seam, seamAt] using hlength
        rw [hjoins'.among, hnil]
        rfl
    · exact absurd rfl hloose
  refine ⟨t', ?_, ?_, hahead'⟩
  · filter_upwards [Filter.eventually_ge_atTop ((Goal.expression {}).rank t.left)] with steps hsteps
    rw [← full_eq_descend _ ht hreadyT hsteps, hfull]
  · exact ((expression_leads {} ht trivial).of_ok hfull).1.tidy ht

end SinFrontend.Parser
