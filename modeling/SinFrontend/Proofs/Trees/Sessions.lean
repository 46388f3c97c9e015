import SinFrontend.Proofs.Lexing.Words
import SinFrontend.Proofs.Termination
import SinFrontend.Proofs.Trees.Makes

/-!
# Sessions over the tokens of a text

What the class of a token says of its text stays true however the tokens are read, since reading
changes no token but closing brackets.

* `Session.Lexed`: a session over tokens as they stand in a text.
* `Session.kept_lexed`: reading keeps this.
* `Parser.Reachable.lexed`: it holds of all sessions that requests lead to, also of those behind a
  failure.
-/

namespace SinFrontend

namespace Session

variable {s later : Session}

/-- An end of input lies ahead and none behind, and the classes of all tokens are right. -/
structure Lexed (session : Session) : Prop where
  tidy : session.Tidy
  tokens : ∀ token ∈ session.cursor.tokens, token.Lexed

theorem mem_tokens_current : s.cursor.current ∈ s.cursor.tokens := by
  simp [Cursor.tokens, Cursor.ahead]

theorem mem_tokens_previous : s.cursor.previous ∈ s.cursor.tokens := by
  unfold Cursor.previous
  cases hpassed : s.cursor.passed with
  | nil => exact mem_tokens_current
  | cons last passed => simp [Cursor.tokens, hpassed]

/-- A token is changed only where closing brackets are taken off it. -/
theorem mem_tokens_split {token : Token} {text : String}
    (hmem : token ∈ (s.on (·.replaceText text)).cursor.tokens) :
    token ∈ s.cursor.tokens ∨ token = { s.cursor.current with text } := by
  simp only [on, Cursor.tokens, Cursor.replaceText, Cursor.ahead, List.mem_append,
    List.mem_cons] at hmem ⊢
  tauto

/-- What holds of all tokens goes on to hold while they are read, if it does not depend on how many
    closing brackets a token has. -/
theorem kept_tokens {word : Token → Prop} (hsplit : ∀ {token : Token},
    Parser.isClosingAngle token = true → ∀ text, word { token with text }) :
    Session.Kept (fun s => ∀ token ∈ s.cursor.tokens, word token) word (fun _ => True) where
  current h := h _ mem_tokens_current
  previous h := h _ mem_tokens_previous
  identifier _ _ := trivial
  advance h := (Cursor.tokens_advance _).symm ▸ h
  retreat h := (Cursor.tokens_retreat _).symm ▸ h
  split h closing text := fun token hmem => by
    rcases mem_tokens_split hmem with hmem | rfl
    · exact h token hmem
    · exact hsplit closing text
  record h _ := h
  start h _ := h

/-- Closing brackets are no words, and nothing else changes. -/
theorem Lexed.of_map_solid? (h : s.Lexed) (htidy : later.Tidy)
    (hsame : later.cursor.tokens.map Token.solid? = s.cursor.tokens.map Token.solid?) :
    later.Lexed := by
  refine ⟨htidy, fun token hmem => ?_⟩
  by_cases hangle : Parser.isClosingAngle token = true
  · have hkind := Parser.kind_of_isClosingAngle hangle
    exact Token.lexed_of_kind (by simp [hkind]) (by simp [hkind])
  · have hsolid : some token ∈ s.cursor.tokens.map Token.solid? := by
      rw [← hsame, List.mem_map]
      exact ⟨token, hmem, if_neg hangle⟩
    obtain ⟨other, hother, hsolid⟩ := List.mem_map.mp hsolid
    unfold Token.solid? at hsolid
    split at hsolid
    · cases hsolid
    · cases hsolid
      exact h.tokens token hother

theorem kept_lexedTokens : Session.Kept (fun s => ∀ token ∈ s.cursor.tokens, token.Lexed)
    Token.Lexed (fun _ => True) :=
  kept_tokens fun closing _ => by
    have hkind := Parser.kind_of_isClosingAngle closing
    exact Token.lexed_of_kind (by simp [hkind]) (by simp [hkind])

/-- Reading keeps the classes of tokens right, and an identifier that is demanded is one. -/
theorem kept_lexed : Session.Kept Lexed Token.Lexed IsIdentifier where
  current h := kept_lexedTokens.current h.tokens
  previous h := kept_lexedTokens.previous h.tokens
  identifier {s} h kind := by
    rw [h.tidy.advance_previous (by simp [kind])]
    exact ((kept_lexedTokens.current h.tokens).identifier kind).1
  advance h := ⟨tidy_advance h.tidy, kept_lexedTokens.advance h.tokens⟩
  retreat h := ⟨h.tidy.on_retreat, kept_lexedTokens.retreat h.tokens⟩
  split h closing text :=
    ⟨(Forward.replaceText h.tidy text).tidy, kept_lexedTokens.split h.tokens closing text⟩
  record h _ := ⟨⟨h.tidy.closed, h.tidy.passed⟩, h.tokens⟩
  start h _ := ⟨⟨h.tidy.closed, h.tidy.passed⟩, h.tokens⟩

/-- Only an end of input is added to the tokens that a session is started on. -/
theorem mem_tokens_ofTokens {tokens : List Token} {token : Token}
    (hmem : token ∈ (Session.ofTokens tokens).cursor.tokens) :
    token ∈ tokens ∨ ∃ line, token = Token.eof line := by
  rcases tokens_ofTokens_or tokens with htokens | ⟨line, htokens⟩ <;> rw [htokens] at hmem
  · exact .inl hmem
  · exact (List.mem_append.mp hmem).imp_right fun hend => ⟨line, List.mem_singleton.mp hend⟩

theorem lexed_ofTokens {tokens : List Token} (h : ∀ token ∈ tokens, token.Lexed) :
    (Session.ofTokens tokens).Lexed := by
  refine ⟨tidy_ofTokens tokens, fun token hmem => ?_⟩
  rcases mem_tokens_ofTokens hmem with hmem | ⟨line, rfl⟩
  · exact h token hmem
  · exact Token.lexed_of_kind nofun nofun

theorem lexed_ofText {text : String} (h : Session.ofText text = .ok s) : s.Lexed := by
  obtain ⟨tokens, htokens, rfl⟩ := exists_tokens_of_ofText h
  exact lexed_ofTokens (Token.lexed_ofText htokens)

theorem preserved_lexed : Parser.Preserved Lexed where
  tidy h := h.tidy
  onward h honward := h.of_map_solid? (honward.tidy h.tidy) honward.map_solid?
  begins h := ⟨⟨h.tidy.closed, h.tidy.passed⟩, h.tokens⟩
  synchronize h := ⟨h.tidy.synchronize, (tokens_synchronize _).symm ▸ h.tokens⟩
  dropDiagnostics h := ⟨⟨h.tidy.closed, h.tidy.passed⟩, h.tokens⟩

end Session

/-- No request changes the class of a token, whether it fails or not. -/
theorem Parser.Reachable.lexed {tokens : List Token} {s : Session}
    (h : ∀ token ∈ tokens, token.Lexed) (hreachable : Reachable tokens s) : s.Lexed :=
  hreachable.preserved Session.preserved_lexed (Session.lexed_ofTokens h)

end SinFrontend
