import SinFrontend.Proofs.Lexing.Accounts

/-!
# Words and lines of a text

Three facts about the tokens of a text that a list of tokens put together by hand may violate:
identifiers have the form of one, the reserved words are those of the keywords, and lines never go
back.

* `IsIdentifier`: ASCII letters, digits and underscores, and no digit in front.
* `Token.Lexed`, `Token.lexed_ofText`: an identifier is one that is not reserved, and a keyword is
  reserved.
* `Token.lines_ofText`: no token stands on an earlier line than a token before it.
-/

namespace SinFrontend

open Lexeme

/-! ## Identifiers -/

/-- A text that has the form of an identifier. -/
def IsIdentifier (text : String) : Prop :=
  ∃ c rest, text.toList = c :: rest ∧ Lexeme.startsWord c = true ∧
    ∀ other ∈ rest, Lexeme.continuesWord other = true

/-- An identifier has no characters that do not continue a word. -/
theorem IsIdentifier.not_mem {text : String} (h : IsIdentifier text) {c : Char}
    (hc : Lexeme.continuesWord c = false) : c ∉ text.toList := by
  obtain ⟨first, rest, htext, hfirst, hrest⟩ := h
  rw [htext, List.mem_cons, not_or]
  constructor
  · rintro rfl
    rw [Source.continuesWord_of_startsWord hfirst] at hc
    cases hc
  · intro hmem
    rw [hrest c hmem] at hc
    cases hc

/-! ## Classes of tokens -/

/-- What the class of a token says of its text: an identifier has the form of one and is not
    reserved, and a keyword is reserved. -/
structure Token.Lexed (token : Token) : Prop where
  identifier : token.kind = .identifier →
    IsIdentifier token.text ∧ Token.isReserved token.text = false
  keyword : token.kind = .keyword → Token.isReserved token.text = true

/-- A token that is no word says nothing of its text. -/
theorem Token.lexed_of_kind {token : Token} (hidentifier : token.kind ≠ .identifier)
    (hkeyword : token.kind ≠ .keyword) : token.Lexed :=
  ⟨fun h => absurd h hidentifier, fun h => absurd h hkeyword⟩

theorem Source.isReserved_of_wordKind_identifier {word : String}
    (h : wordKind word = .identifier) : Token.isReserved word = false := by
  unfold wordKind at h
  grind

theorem Source.isReserved_of_wordKind_keyword {word : String} (h : wordKind word = .keyword) :
    Token.isReserved word = true := by
  unfold wordKind at h
  grind

namespace Lexeme

variable {kind : Token.Kind} {text : String} {lexeme rest : List Char}

theorem IsLexeme.lexed (h : IsLexeme kind text lexeme rest) (line : ℕ) :
    Token.Lexed ⟨kind, text, line⟩ := by
  cases h with
  | @word c more _ first inside _ =>
    have hidentifier : IsIdentifier (String.ofList (c :: more)) :=
      ⟨c, more, String.toList_ofList, first, inside⟩
    exact ⟨fun hkind => ⟨hidentifier, Source.isReserved_of_wordKind_identifier hkind⟩,
      Source.isReserved_of_wordKind_keyword⟩
  | number _ _ _ points =>
    rcases points with ⟨rfl, -⟩ | ⟨rfl, -⟩ <;> exact Token.lexed_of_kind nofun nofun
  | _ => exact Token.lexed_of_kind nofun nofun

end Lexeme

variable {before text : List Char} {tokens : List Token}

theorem Accounts.lexed (h : Accounts before text tokens) : ∀ token ∈ tokens, token.Lexed := by
  induction h with
  | done => exact List.forall_mem_singleton.mpr (Token.lexed_of_kind nofun nofun)
  | token _ _ reads _ ih => exact List.forall_mem_cons.mpr ⟨reads.lexed _, ih⟩

/-- What is read later stands on a later line, or on the same. -/
theorem Accounts.lineAfter_le (h : Accounts before text tokens) :
    ∀ token ∈ tokens, lineAfter before ≤ token.line := by
  induction h with
  | @done before gap _ =>
    refine List.forall_mem_singleton.mpr ?_
    show lineAfter before ≤ lineAfter (before ++ gap)
    rw [lineAfter_append]
    omega
  | @token before gap lexeme rest kind text tokens _ _ _ _ ih =>
    have hgap : lineAfter before ≤ lineAfter (before ++ gap) := by
      rw [lineAfter_append]
      omega
    have hlexeme : lineAfter before ≤ lineAfter (before ++ gap ++ lexeme) := by
      rw [lineAfter_append, lineAfter_append]
      omega
    exact List.forall_mem_cons.mpr ⟨hgap, fun token hmem => hlexeme.trans (ih token hmem)⟩

theorem Accounts.lines (h : Accounts before text tokens) :
    tokens.Pairwise fun first later => first.line ≤ later.line := by
  induction h with
  | done => exact List.pairwise_singleton _ _
  | @token before gap lexeme rest kind text tokens _ _ _ more ih =>
    refine List.pairwise_cons.mpr ⟨fun later hmem => ?_, ih⟩
    have hlater := more.lineAfter_le later hmem
    rw [lineAfter_append] at hlater
    exact (Nat.le_add_right _ _).trans hlater

/-! ## Texts -/

theorem Token.accounts_ofText {text : String} (h : Token.ofText text = .ok tokens) :
    Accounts [] (Source.uniformLineEnds text.toList) tokens :=
  Source.accounts_of_tokens h rfl

theorem Token.lexed_ofText {text : String} (h : Token.ofText text = .ok tokens) :
    ∀ token ∈ tokens, token.Lexed :=
  (accounts_ofText h).lexed

/-- The tokens of a text stand on lines that do not go back. -/
theorem Token.lines_ofText {text : String} (h : Token.ofText text = .ok tokens) :
    tokens.Pairwise fun first later => first.line ≤ later.line :=
  (accounts_ofText h).lines

end SinFrontend
