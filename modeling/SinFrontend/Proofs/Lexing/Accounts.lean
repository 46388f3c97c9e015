import SinFrontend.Proofs.Lexing.Gaps
import SinFrontend.Proofs.Lexing.Lexemes

/-!
# Tokens account for their text

The tokens of a text say of every character what it is for: it belongs to the lexeme of one token,
or to a gap. The lexemes are the longest ones that stand there, nothing is read twice, and the line
of a token is the line on which its lexeme begins.

* `Accounts`: tokens account for a text, given what was read before it.
* `Source.accounts_of_tokens`: the tokens that are read account for what they are read from.
* `Source.tokens_of_accounts`: no other tokens account for it.
* `ofText_iff_accounts`: both, for a whole text.
-/

namespace SinFrontend

open Lexeme

/-- The line on which a text goes on after a part of it, counted from one. -/
def lineAfter (before : List Char) : ℕ :=
  before.count '\n' + 1

/-- `Accounts before text tokens`: behind `before`, the text is made of a gap and a lexeme for each
    token, in their order, and of a last gap in front of the end of input. No gap stops short of
    white space or of a comment. -/
inductive Accounts : List Char → List Char → List Token → Prop where
  | done {before gap : List Char} (last : IsLastGap gap) :
      Accounts before gap [Token.eof (lineAfter (before ++ gap))]
  | token {before gap lexeme rest : List Char} {kind : Token.Kind} {text : String}
      {tokens : List Token} (skipped : IsGap gap) (stops : startsGap (lexeme ++ rest) = false)
      (reads : IsLexeme kind text lexeme rest)
      (more : Accounts (before ++ gap ++ lexeme) rest tokens) :
      Accounts before (gap ++ (lexeme ++ rest))
        (⟨kind, text, lineAfter (before ++ gap)⟩ :: tokens)

theorem lineAfter_append (before piece : List Char) :
    lineAfter (before ++ piece) = lineAfter before + piece.count '\n' := by
  rw [lineAfter, lineAfter, List.count_append]
  omega

namespace Source

variable {source after : Source} {before gap rest : List Char} {token : Token} {tokens : List Token}

theorem skipGap_eq (hrest : source.rest = gap ++ rest) (h : CutsGap gap rest) :
    source.skipGap = source.passing gap rest := by
  simp only [skipGap, hrest, splitGap_iff.mpr ⟨rfl, h⟩]

theorem line_passing (piece : List Char) (hline : source.line = lineAfter before) :
    (source.passing piece rest).line = lineAfter (before ++ piece) := by
  rw [lineAfter_append, ← hline]
  rfl

/-- What is read next: the last gap in front of the end of input, or a gap and a lexeme. -/
theorem nextToken_sound (h : source.nextToken = (.ok token, after))
    (hline : source.line = lineAfter before) :
    (IsLastGap source.rest ∧ token = Token.eof (lineAfter (before ++ source.rest))) ∨
      ∃ gap lexeme, source.rest = gap ++ (lexeme ++ after.rest) ∧ IsGap gap ∧
        startsGap (lexeme ++ after.rest) = false ∧
        IsLexeme token.kind token.text lexeme after.rest ∧
        token.line = lineAfter (before ++ gap) ∧
        after.line = lineAfter (before ++ gap ++ lexeme) := by
  obtain ⟨gap, rest, hrest, hcuts⟩ : ∃ gap rest, source.rest = gap ++ rest ∧ CutsGap gap rest :=
    ⟨_, _, (splitGap_append .blank source.rest).symm, cutsFrom_splitGap .blank source.rest⟩
  have hline' : (source.passing gap rest).line = lineAfter (before ++ gap) := line_passing gap hline
  rw [nextToken, skipGap_eq hrest hcuts] at h
  cases rest with
  | nil =>
    rw [List.append_nil] at hrest
    cases h
    have hlast : IsLastGap gap := hcuts.elim (fun closed => .inl closed.1) And.left
    exact .inl ⟨hrest ▸ hlast, by rw [hrest, hline']⟩
  | cons c chars =>
    obtain ⟨lexeme, rest, happend, hlexeme, htoken, rfl⟩ := readLexeme_sound h
    obtain ⟨hgap, hstops⟩ : IsGap gap ∧ startsGap (c :: chars) = false := by
      rcases hcuts with hclosed | ⟨-, ⟨⟩⟩
      exact hclosed
    rw [← happend] at hrest hstops
    exact .inr ⟨gap, lexeme, hrest, hgap, hstops, hlexeme, htoken.trans hline',
      line_passing lexeme hline'⟩

theorem accounts_of_tokens (h : source.tokens = .ok tokens)
    (hline : source.line = lineAfter before) : Accounts before source.rest tokens := by
  fun_induction Source.tokens source generalizing tokens before with
  | case1 source error after hread => cases h
  | case2 source token after hread hmore ih =>
    rcases nextToken_sound hread hline with ⟨-, rfl⟩ |
      ⟨gap, lexeme, hrest, hgap, hstops, hlexeme, htoken, hafter⟩
    · exact absurd rfl hmore
    · cases htokens : after.tokens with
      | error error => simp [htokens, Except.map] at h
      | ok more =>
        obtain rfl : token :: more = tokens := by simpa [htokens, Except.map] using h
        have hmore := Accounts.token hgap hstops hlexeme (ih htokens hafter)
        rw [hrest]
        rwa [← htoken] at hmore
  | case3 source token after hread hmore =>
    cases h
    rcases nextToken_sound hread hline with ⟨hlast, rfl⟩ | ⟨gap, lexeme, -, -, -, hlexeme, -⟩
    · exact .done hlast
    · exact absurd (not_not.mp hmore) hlexeme.kind_ne_eof

theorem tokens_of_nextToken (h : source.nextToken = (.ok token, after)) :
    source.tokens =
      if token.kind ≠ .eof then after.tokens.map (token :: ·) else .ok [token] := by
  rw [Source.tokens]
  split
  next hread => rw [h] at hread; cases hread
  next hread =>
    rw [h] at hread
    cases hread
    rfl

/-- Tokens that account for a text are the ones that are read. -/
theorem tokens_of_accounts {text : List Char} (h : Accounts before text tokens)
    (hrest : source.rest = text) (hline : source.line = lineAfter before) :
    source.tokens = .ok tokens := by
  induction h generalizing source with
  | @done before gap last =>
    have hskip : source.skipGap = source.passing gap [] :=
      skipGap_eq (by rw [hrest, List.append_nil]) (.inr ⟨last, rfl⟩)
    have hread : source.nextToken =
        (.ok (Token.eof (lineAfter (before ++ gap))), source.passing gap []) := by
      rw [nextToken, hskip, ← line_passing gap hline]
      rfl
    rw [tokens_of_nextToken hread]
    rfl
  | @token before gap lexeme rest kind text tokens skipped stops reads more ih =>
    have hskip : source.skipGap = source.passing gap (lexeme ++ rest) :=
      skipGap_eq hrest (.inl ⟨skipped, stops⟩)
    have hgap : (source.passing gap (lexeme ++ rest)).line = lineAfter (before ++ gap) :=
      line_passing gap hline
    obtain ⟨c, chars, rfl⟩ := reads.exists_cons
    have hread : source.nextToken = (.ok ⟨kind, text, lineAfter (before ++ gap)⟩,
        (source.passing gap (c :: chars ++ rest)).passing (c :: chars) rest) := by
      rw [nextToken, hskip, ← hgap]
      exact readLexeme_complete reads
    rw [tokens_of_nextToken hread, if_pos reads.kind_ne_eof, ih rfl (line_passing _ hgap)]
    rfl

end Source

/-- The tokens of a text are those that account for all of it, from the first line on, once its line
    ends are uniform. -/
theorem ofText_iff_accounts (text : String) (tokens : List Token) :
    Token.ofText text = .ok tokens ↔
      Accounts [] (Source.uniformLineEnds text.toList) tokens :=
  ⟨fun h => Source.accounts_of_tokens h rfl, fun h => Source.tokens_of_accounts h rfl rfl⟩

end SinFrontend
