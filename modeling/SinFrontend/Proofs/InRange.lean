import Mathlib.Data.List.Forall2
import SinFrontend.Proofs.Termination
import SinFrontend.Proofs.Trees.Statements

/-!
# The cursor stays among the tokens

Seen as a list with an index, a session could run off its tokens: the cursor is moved forward, back
and to a statement that failed, and closing brackets are taken off tokens in place, also by readings
that fail later and that callers go on from. It never does. The cursor does not get past the first
end of input, and no token is lost, so there is a token wherever one is looked up.

* `Token.Trimmed`: what may become of a token.
* `Session.InRange`: the cursor is not past the first end of input, over the tokens that were given.
* `Session.inRange_iff`: such a session is a tidy one over those tokens.
* `Session.Anchored`: in range, and the last statement does not begin ahead of the cursor.
* `Parser.anchored_of_reachable`: the sessions that requests lead to are anchored, also those behind
  a failure, and every single move stays in range.
-/

namespace SinFrontend

/-- What may become of a token: if it consists of closing brackets, some may be taken off it, from
    the front, but not all of them. -/
inductive Token.Trimmed (token : Token) : Token → Prop where
  | same : token.Trimmed token
  | brackets {text : String} (closing : Parser.isClosingAngle token = true)
      (fewer : text.toList <:+ token.text.toList) (left : text.toList ≠ []) :
      token.Trimmed { token with text }

variable {token other : Token} {tokens given read : List Token}

theorem Token.Trimmed.trans {last : Token} (h : token.Trimmed other) (h' : other.Trimmed last) :
    token.Trimmed last := by
  cases h' with
  | same => exact h
  | brackets closing fewer left =>
    cases h with
    | same => exact .brackets closing fewer left
    | brackets first more _ => exact .brackets first (fewer.trans more) left

theorem Token.Trimmed.kind (h : token.Trimmed other) : other.kind = token.kind := by
  cases h <;> rfl

/-- Nothing but closing brackets is trimmed. -/
theorem Token.Trimmed.eq_of_kind (h : token.Trimmed other) (hkind : token.kind ≠ .operator) :
    other = token := by
  cases h with
  | same => rfl
  | brackets closing => exact absurd (Parser.kind_of_isClosingAngle closing) hkind

/-! ## Tokens that were trimmed -/

theorem trimmed_refl (tokens : List Token) : List.Forall₂ Token.Trimmed tokens tokens :=
  List.forall₂_same.mpr fun _ _ => .same

theorem trimmed_trans (h : List.Forall₂ Token.Trimmed tokens given)
    (h' : List.Forall₂ Token.Trimmed given read) : List.Forall₂ Token.Trimmed tokens read := by
  induction h generalizing read with
  | nil => exact h'
  | cons hfirst _ ih =>
    cases h' with
    | cons hsecond hrest => exact .cons (hfirst.trans hsecond) (ih hrest)

theorem findIdx_of_trimmed (h : List.Forall₂ Token.Trimmed given read) :
    read.findIdx (·.kind == .eof) = given.findIdx (·.kind == .eof) := by
  have hkinds : read.map (·.kind) = given.map (·.kind) := by
    induction h with
    | nil => rfl
    | cons hfirst _ ih => simp [hfirst.kind, ih]
  have hmap (tokens : List Token) : tokens.findIdx (·.kind == .eof) =
      (tokens.map (·.kind)).findIdx (· == .eof) := by
    rw [List.findIdx_map]
    rfl
  rw [hmap, hkinds, ← hmap]

/-- A token that is no operator stays where it is, as it is. -/
theorem getElem?_of_trimmed (h : List.Forall₂ Token.Trimmed given read) {place : ℕ}
    (hkind : token.kind ≠ .operator) (hplace : given[place]? = some token) :
    read[place]? = some token := by
  induction h generalizing place with
  | nil => simp at hplace
  | cons hfirst _ ih =>
    cases place with
    | zero =>
      obtain rfl : _ = token := by simpa using hplace
      simp [hfirst.eq_of_kind hkind]
    | succ place => exact ih hplace

namespace Session

variable {base s later : Session}

theorem trimmed_replaceText {c : Char} {more : List Char}
    (h : Parser.isClosingAngle s.cursor.current = true)
    (htext : s.cursor.current.text.toList = c :: more) (several : more ≠ []) :
    List.Forall₂ Token.Trimmed s.cursor.tokens
      (s.on (·.replaceText (String.ofList more))).cursor.tokens := by
  refine List.rel_append (trimmed_refl s.cursor.passed.reverse) (.cons ?_ (trimmed_refl _))
  refine .brackets h ?_ (by simpa using several)
  rw [String.toList_ofList, htext]
  exact List.suffix_cons c more

theorem Onward.trimmed (h : base.Onward later) :
    List.Forall₂ Token.Trimmed base.cursor.tokens later.cursor.tokens := by
  induction h with
  | refl => exact trimmed_refl _
  | @advance s _ ih => exact (Cursor.tokens_advance s.cursor).symm ▸ ih
  | split _ closing _ text several ih =>
    exact trimmed_trans ih (trimmed_replaceText closing text several)
  | record _ _ ih => exact ih

/-! ## Sessions in range -/

/-- The session stands over the tokens of a list, of which none but closing brackets have changed,
    and not past the first end of input. -/
structure InRange (tokens : List Token) (s : Session) : Prop where
  trimmed : List.Forall₂ Token.Trimmed (Session.ofTokens tokens).cursor.tokens s.cursor.tokens
  inside : s.past ≤ (Session.ofTokens tokens).cursor.tokens.findIdx (·.kind == .eof)

/-- A session is tidy if its tokens hold an end of input and the cursor has not passed the first. -/
theorem tidy_iff_findIdx : s.Tidy ↔
    s.past ≤ s.cursor.tokens.findIdx (·.kind == .eof) ∧
      s.cursor.tokens.findIdx (·.kind == .eof) < s.cursor.tokens.length := by
  have hpassed : s.cursor.passed.reverse.findIdx (·.kind == .eof) = s.past ↔
      ∀ token ∈ s.cursor.passed, token.kind ≠ .eof := by
    rw [past, ← List.length_reverse, List.findIdx_eq_length]
    simp
  have hahead : s.cursor.ahead.findIdx (·.kind == .eof) < s.cursor.ahead.length ↔
      ∃ token ∈ s.cursor.ahead, token.kind = .eof := by
    rw [List.findIdx_lt_length]
    simp
  have hle : s.cursor.passed.reverse.findIdx (·.kind == .eof) ≤ s.past := by
    rw [past, ← List.length_reverse]
    exact List.findIdx_le_length
  have hindex : s.cursor.tokens.findIdx (·.kind == .eof) =
      if s.cursor.passed.reverse.findIdx (·.kind == .eof) < s.past then
        s.cursor.passed.reverse.findIdx (·.kind == .eof)
      else s.cursor.ahead.findIdx (·.kind == .eof) + s.past := by
    rw [Cursor.tokens, List.findIdx_append, List.length_reverse]
    rfl
  have hlength : s.cursor.tokens.length = s.past + s.cursor.ahead.length := by
    simp [Cursor.tokens, past]
  rw [hindex, hlength]
  constructor
  · intro hs
    have hread := hpassed.mpr hs.passed
    have hclosed := hahead.mpr hs.closed
    split <;> omega
  · rintro ⟨hinside, hlt⟩
    have hread : s.cursor.passed.reverse.findIdx (·.kind == .eof) = s.past := by
      split at hinside <;> omega
    rw [hread, if_neg (Nat.lt_irrefl _)] at hlt
    exact ⟨hahead.mp (by omega), hpassed.mp hread⟩

/-- In range are the tidy sessions over the tokens of a list. -/
theorem inRange_iff : s.InRange tokens ↔ s.Tidy ∧
    List.Forall₂ Token.Trimmed (Session.ofTokens tokens).cursor.tokens s.cursor.tokens := by
  have hgiven := (tidy_iff_findIdx.mp (tidy_ofTokens tokens)).2
  constructor
  · intro h
    refine ⟨tidy_iff_findIdx.mpr ?_, h.trimmed⟩
    rw [findIdx_of_trimmed h.trimmed, ← h.trimmed.length_eq]
    exact ⟨h.inside, hgiven⟩
  · rintro ⟨htidy, htrimmed⟩
    refine ⟨htrimmed, ?_⟩
    rw [← findIdx_of_trimmed htrimmed]
    exact (tidy_iff_findIdx.mp htidy).1

theorem InRange.tidy (h : s.InRange tokens) : s.Tidy :=
  (inRange_iff.mp h).1

theorem inRange_ofTokens (tokens : List Token) : (Session.ofTokens tokens).InRange tokens :=
  inRange_iff.mpr ⟨tidy_ofTokens tokens, trimmed_refl _⟩

/-- Moves that lose no token and leave the session tidy stay in range. -/
theorem InRange.of_tokens (h : s.InRange tokens) (hlater : later.Tidy)
    (hsame : later.cursor.tokens = s.cursor.tokens) : later.InRange tokens :=
  inRange_iff.mpr ⟨hlater, hsame ▸ h.trimmed⟩

theorem InRange.onward (h : s.InRange tokens) (honward : s.Onward later) : later.InRange tokens :=
  inRange_iff.mpr ⟨honward.tidy h.tidy, trimmed_trans h.trimmed honward.trimmed⟩

theorem InRange.advance (h : s.InRange tokens) : (s.on .advance).InRange tokens :=
  h.onward (.advance .refl)

theorem InRange.retreat (h : s.InRange tokens) : (s.on .retreat).InRange tokens :=
  h.of_tokens h.tidy.on_retreat (Cursor.tokens_retreat _)

/-- A closing bracket is read or taken off its token. -/
theorem InRange.closingAngle (h : s.InRange tokens)
    (hrun : Parser.expectClosingAngle s = .ok () later) : later.InRange tokens := by
  obtain ⟨hclosing, rfl | ⟨c, more, htext, several, rfl⟩⟩ := Parser.expectClosingAngle_ok hrun
  · exact h.advance
  · exact inRange_iff.mpr ⟨(Forward.replaceText h.tidy _).tidy,
      trimmed_trans h.trimmed (trimmed_replaceText hclosing htext several)⟩

/-! ## Looking tokens up -/

/-- The token before the cursor, or the first one, is the one that was read last. -/
theorem getElem?_past_pred (s : Session) :
    s.cursor.tokens[s.past - 1]? = some s.cursor.previous := by
  cases hpassed : s.cursor.passed <;>
    simp [past, Cursor.previous, Cursor.tokens, Cursor.ahead, hpassed]

theorem past_lt_length (s : Session) : s.past < s.cursor.tokens.length :=
  (List.getElem?_eq_some_iff.mp s.getElem?_past).1

/-! ## Between requests -/

/-- A session in range whose last statement at the top level does not begin ahead of the cursor. -/
structure Anchored (tokens : List Token) (s : Session) : Prop extends InRange tokens s where
  anchor : s.statementStart ≤ s.past

theorem Anchored.onward (h : s.Anchored tokens) (honward : s.Onward later) :
    later.Anchored tokens where
  toInRange := h.toInRange.onward honward
  anchor := by
    have := h.anchor
    have := (honward.forward h.tidy).past_le
    rw [honward.statementStart]
    omega

/-- Going back to a statement and over it ends at the statement or behind it. -/
theorem Anchored.synchronize (h : s.Anchored tokens) : s.synchronize.Anchored tokens where
  toInRange := h.toInRange.of_tokens h.tidy.synchronize s.tokens_synchronize
  anchor := by
    obtain ⟨htidy, hback, -⟩ := h.tidy.retreatTo h.anchor
    set start := s.on (·.retreatTo s.statementStart)
    have hskip : s.synchronize.past = start.past +
        min (Cursor.statementLength 0 start.cursor.ahead) start.left :=
      (htidy.advanceBy (Cursor.statementLength 0 start.cursor.ahead)).2
    show s.statementStart ≤ s.synchronize.past
    omega

theorem preserved_anchored (tokens : List Token) : Parser.Preserved (Anchored tokens) where
  tidy h := h.tidy
  onward := .onward
  begins h := ⟨⟨h.trimmed, h.inside⟩, le_rfl⟩
  synchronize := .synchronize
  dropDiagnostics h := ⟨⟨h.trimmed, h.inside⟩, h.anchor⟩

end Session

open Session

/-- Whatever was asked for over a list of tokens, and whether it failed or not, the cursor has not
    passed the first end of input; only closing brackets have been taken off tokens, never all of
    one; and passing over a failed statement goes back. Every single move of a parser keeps the
    cursor and the tokens so. In such a session no token is missing, an end of input is where it
    was, and the tokens at the cursor and before it are there to be looked up. -/
theorem Parser.anchored_of_reachable (tokens : List Token) :
    (∀ s, Reachable tokens s → s.Anchored tokens) ∧
    (∀ s : Session, s.InRange tokens →
      (s.on .advance).InRange tokens ∧ (s.on .retreat).InRange tokens ∧
      ∀ later, expectClosingAngle s = .ok () later → later.InRange tokens) ∧
    ∀ s : Session, s.InRange tokens →
      s.cursor.tokens.length = (Session.ofTokens tokens).cursor.tokens.length ∧
      (∀ (place : ℕ) (token : Token),
        (Session.ofTokens tokens).cursor.tokens[place]? = some token → token.kind = .eof →
        s.cursor.tokens[place]? = some token) ∧
      s.past < s.cursor.tokens.length ∧
      s.cursor.tokens[s.past]? = some s.cursor.current ∧
      s.cursor.tokens[s.past - 1]? = some s.cursor.previous := by
  refine ⟨fun s hreachable => ?_, fun s h => ⟨h.advance, h.retreat, fun _ => h.closingAngle⟩,
    fun s h => ⟨h.trimmed.length_eq.symm, fun place token hplace hkind => ?_, s.past_lt_length,
      s.getElem?_past, s.getElem?_past_pred⟩⟩
  · exact hreachable.preserved (preserved_anchored tokens)
      ⟨inRange_ofTokens tokens, Nat.zero_le _⟩
  · exact getElem?_of_trimmed h.trimmed (by simp [hkind]) hplace

/-- In this declaration the two brackets at the end of the type are one token, of which the first is
    taken off before the second is read. -/
theorem Parser.anchored_of_reachable_brackets :
    ∃ tokens statement later,
      Token.ofText "decl ptr<ptr<int>> x;" = .ok tokens ∧
      topLevelStatement (.ofTokens tokens) = .ok statement later ∧
      later.Anchored tokens ∧ (later.on .retreat).InRange tokens ∧
      later.cursor.tokens.length = (Session.ofTokens tokens).cursor.tokens.length := by
  have hreads : readsAs topLevelStatement (fun _ statement => statement.isSome)
      "decl ptr<ptr<int>> x;" = true := by
    decide +kernel
  obtain ⟨tokens, statement, later, htokens, hrun, -⟩ := exists_of_readsAs hreads
  obtain ⟨hreachable, hmoves, hplaces⟩ := anchored_of_reachable tokens
  have hrequest : Request.topLevelStatement.run (.ofTokens tokens) = .ok () later := by
    rw [Request.run, discard_run, hrun]
  have hlater : later.Anchored tokens := hreachable later (.value .start hrequest)
  exact ⟨tokens, statement, later, htokens, hrun, hlater, (hmoves later hlater.toInRange).2.1,
    (hplaces later hlater.toInRange).1⟩

end SinFrontend
