import SinFrontend.Proofs.Descent
import SinFrontend.Proofs.Wording.Words

/-!
# Words of what is read

The tokens that a parser reads lie between two sessions, and their words are compared with those
of the tree that it reads.

* `Session.Passes`: the tokens between two sessions.
* `Session.Tells`: these tokens have given words, unless a reserved word is among them that no
  expression without types and constructions contains. Words add up along a run.
-/

namespace SinFrontend

/-! ## Tokens that are read -/

/-- The reserved words of expressions without types and constructions. -/
def expressionWords : List String :=
  ["and", "or", "xor", "not", "constexpr", "len", "size", "var"]

/-- Whether a token may stand in an expression without types and constructions. -/
def Token.Admitted (token : Token) : Prop :=
  token.kind = .keyword → token.text ∈ expressionWords

instance (token : Token) : Decidable token.Admitted :=
  inferInstanceAs (Decidable (token.kind = .keyword → token.text ∈ expressionWords))

namespace Session

variable {s middle later : Session} {tokens : List Token} {words words' : List Word}

/-- The tokens from a session to a later one. -/
structure Passes (s later : Session) (tokens : List Token) : Prop where
  ahead : s.cursor.ahead = tokens ++ later.cursor.ahead
  passed : later.cursor.passed = tokens.reverse ++ s.cursor.passed

/-- As many tokens ahead of a session as have been read up to a later one. -/
def consumed (s later : Session) : List Token :=
  s.cursor.ahead.take (later.past - s.past)

/-- A token that is not admitted stands between two sessions. -/
def Spoiled (s later : Session) : Prop :=
  ∃ front token back, s.cursor.ahead = front ++ token :: back ∧
    s.past + front.length < later.past ∧ ¬ token.Admitted

/-- The tokens between two sessions have given words, if all of them are admitted. -/
structure Tells (s later : Session) (words : List Word) : Prop where
  forward : s.Forward 0 later
  outcome : s.Spoiled later ∨ ∃ tokens, s.Passes later tokens ∧ Leaves tokens words

theorem Passes.past (h : s.Passes later tokens) : later.past = s.past + tokens.length := by
  rw [Session.past, h.passed, Session.past]
  simp
  omega

theorem Passes.trans {more : List Token} (h : s.Passes middle tokens)
    (h' : middle.Passes later more) : s.Passes later (tokens ++ more) := by
  refine ⟨?_, ?_⟩
  · rw [h.ahead, h'.ahead, List.append_assoc]
  · rw [h'.passed, h.passed]
    simp

theorem Passes.advance (hs : s.Tidy) (h : s.cursor.current.kind ≠ .eof) :
    s.Passes (s.on .advance) [s.cursor.current] := by
  obtain ⟨next, rest, hrest, hadvance⟩ := hs.advance_eq h
  constructor <;> simp [on, hadvance, Cursor.ahead, hrest]

theorem Spoiled.of_later (h : s.Spoiled middle) (hle : middle.past ≤ later.past) :
    s.Spoiled later := by
  obtain ⟨front, token, back, hahead, hpast, htoken⟩ := h
  exact ⟨front, token, back, hahead, hpast.trans_le hle, htoken⟩

theorem Spoiled.of_passes (h : s.Passes middle tokens) (h' : middle.Spoiled later) :
    s.Spoiled later := by
  obtain ⟨front, token, back, hahead, hpast, htoken⟩ := h'
  refine ⟨tokens ++ front, token, back, by rw [h.ahead, hahead, List.append_assoc], ?_, htoken⟩
  have := h.past
  simp only [List.length_append]
  omega

theorem spoiled_of_current (h : ¬ s.cursor.current.Admitted) (hpast : s.past < later.past) :
    s.Spoiled later :=
  ⟨[], s.cursor.current, s.cursor.rest, rfl, by simpa using hpast, h⟩

theorem Tells.ready (h : s.Tells later words) (hs : s.Ready) : later.Ready :=
  hs.forward h.forward rfl

theorem Tells.refl (hs : s.Tidy) : s.Tells s [] :=
  ⟨.refl hs, .inr ⟨[], ⟨rfl, rfl⟩, .nil⟩⟩

/-- Words add up. -/
theorem Tells.trans (h : s.Tells middle words) (h' : middle.Tells later words') :
    s.Tells later (words ++ words') := by
  refine ⟨h.forward.trans h'.forward, ?_⟩
  have hle : middle.past ≤ later.past := h'.forward.past_le
  rcases h.outcome with hspoiled | ⟨tokens, hpasses, hleaves⟩
  · exact .inl (hspoiled.of_later hle)
  rcases h'.outcome with hspoiled | ⟨more, hpasses', hleaves'⟩
  · exact .inl (.of_passes hpasses hspoiled)
  · exact .inr ⟨tokens ++ more, hpasses.trans hpasses', hleaves.append hleaves'⟩

/-- A token that is read tells its words. The sign `&` does not stand alone. -/
theorem Tells.advance (hs : s.Tidy) (h : s.cursor.current.kind ≠ .eof)
    (hsign : s.cursor.current.isOperator "&" = false) :
    s.Tells (s.on .advance) s.cursor.current.words :=
  ⟨(Forward.advance hs h).weaken (Nat.zero_le _), .inr ⟨_, .advance hs h, .singleton hsign⟩⟩

/-- A token without words tells nothing. -/
theorem Tells.silent (hs : s.Tidy) (h : s.cursor.current.kind ≠ .eof)
    (hsign : s.cursor.current.isOperator "&" = false) (hwords : s.cursor.current.words = []) :
    s.Tells (s.on .advance) [] :=
  hwords ▸ .advance hs h hsign

/-- A symbol that groups tells nothing. -/
theorem Tells.grouping {symbol : String} (hs : s.Tidy)
    (h : s.cursor.current.isPunctuation symbol = true) (hsymbol : symbol ∈ groupingSymbols) :
    s.Tells (s.on .advance) [] := by
  have hform : s.cursor.current.kind = .punctuation ∧ s.cursor.current.text = symbol := by
    simpa [Token.isPunctuation, Token.hasForm] using h
  exact .silent hs (by simp [hform]) (by simp [Token.isOperator, Token.hasForm, hform])
    (by simp [Token.words, hform, hsymbol])

/-- The sign before `constexpr` and that word tell nothing. -/
theorem Tells.mark (hs : s.Tidy) (hsign : s.cursor.current.isOperator "&" = true)
    (hword : (s.on .advance).cursor.current.isKeyword "constexpr" = true) :
    s.Tells ((s.on .advance).on .advance) [] := by
  have hkind : s.cursor.current.kind ≠ .eof := by simp [Parser.kind_of_isOperator hsign]
  have hkind' : (s.on .advance).cursor.current.kind ≠ .eof := by
    simp [Parser.kind_of_isKeyword hword]
  have hfwd := Forward.advance hs hkind
  have hfwd' := hfwd.trans (Forward.advance hfwd.tidy hkind')
  exact ⟨hfwd'.weaken (Nat.zero_le _), .inr ⟨_,
    (Passes.advance hs hkind).trans (.advance hfwd.tidy hkind'), .mark hsign hword⟩⟩

/-- An operator and what is read behind it. The sign `&` is an operator unless a reserved word
    follows. -/
theorem Tells.operator (hs : s.Tidy) (h : s.cursor.current.kind ≠ .eof)
    (hsign : s.cursor.current.isOperator "&" = true →
      (s.cursor.rest.head?.any (·.kind == .keyword)) = false)
    (hmore : (s.on .advance).Forward 1 later) (h' : (s.on .advance).Tells later words) :
    s.Tells later (s.cursor.current.words ++ words) := by
  have hadvance := Passes.advance hs h
  refine ⟨((Forward.advance hs h).trans h'.forward).weaken (Nat.zero_le _), ?_⟩
  rcases h'.outcome with hspoiled | ⟨tokens, hpasses, hleaves⟩
  · exact .inl (.of_passes hadvance hspoiled)
  refine .inr ⟨_, hadvance.trans hpasses, hleaves.cons ?_ fun hop => ?_⟩
  · rintro rfl
    have hnone := hpasses.past
    have hsome := hmore.past_le
    rw [List.length_nil] at hnone
    omega
  · cases tokens with
    | nil => rfl
    | cons first tokens =>
      obtain ⟨next, rest, hrest, hon⟩ := hs.advance_eq h
      obtain rfl : next = first := by
        have hahead := hpasses.ahead
        simp only [on, hon, Cursor.ahead] at hahead
        exact (List.cons.inj hahead).1
      have hnext : (next.kind == .keyword) = false := by simpa [hrest] using hsign hop
      simp [Token.isKeyword, Token.hasForm, hnext]

/-- If all tokens between two sessions are admitted, they have the words that are told. -/
theorem Tells.of_admitted (h : s.Tells later words)
    (hadmitted : ∀ token ∈ s.consumed later, token.Admitted) :
    s.Passes later (s.consumed later) ∧ words = strip (s.consumed later) := by
  rcases h.outcome with ⟨front, token, back, hahead, hpast, htoken⟩ | ⟨tokens, hpasses, hleaves⟩
  · refine absurd (hadmitted token ?_) htoken
    have hcount : 0 < later.past - s.past - front.length := by omega
    rw [consumed, hahead, List.take_append, List.take_cons hcount]
    exact List.mem_append_right _ List.mem_cons_self
  · have htokens : s.consumed later = tokens := by
      rw [consumed, hpasses.ahead, hpasses.past, Nat.add_sub_cancel_left, List.take_left]
    rw [htokens]
    exact ⟨hpasses, hleaves.strip_eq.symm⟩

end Session

end SinFrontend
