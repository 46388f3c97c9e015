import SinFrontend.Proofs.RoundTrip.Operators

/-!
# Ways of writing a text

A text can be written with different tokens: each pattern by a token of its own, or with some of
its closing brackets joined. What parsers of types do is the same in each of them, so nothing here
says how a text is written, only what can be read off it.

* `Writing`: what a way of writing allows. A closing bracket may share its token with others.
* `TakesText`: a parser takes a text for a value, however it is written.
* `plainScript`: each pattern has a token of its own.
-/

namespace SinFrontend.Parser

/-- A way of writing: whether a text is written ahead, given the tokens before a place, the nearest
    first, and those from it on. -/
abbrev Script :=
  List Pattern → List Token → List Token → Prop

/-- Wherever a text is written, something stands ahead; a pattern other than a closing bracket has
    a token of its own, and a closing bracket can be read. -/
structure Writing (At : Script) : Prop where
  ahead_ne_nil : ∀ {text passed ahead}, At text passed ahead → ahead ≠ []
  token : ∀ {pattern more passed ahead}, pattern ≠ .operator .greater →
    At (pattern :: more) passed ahead → ∃ token rest, pattern.Matches token ∧
      ahead = token :: rest ∧ At more (token :: passed) rest
  close : ∀ {more passed ahead}, At (.operator .greater :: more) passed ahead →
    ∃ first rest, ahead = first :: rest ∧ isClosingAngle first = true ∧
      ∃ passed' ahead', At more passed' ahead' ∧ ∀ base : Session,
        expectClosingAngle (base.between passed ahead) = .ok () (base.between passed' ahead')

/-- A text is written with a token for each pattern. -/
def Splits (At : Script) (text : List Pattern) : Prop :=
  ∀ {more passed ahead}, At (text ++ more) passed ahead → ∃ tokens rest, Spells text tokens ∧
    ahead = tokens ++ rest ∧ At more (tokens.reverse ++ passed) rest

/-- A parser takes a text in front of another one for a value. What it notes meanwhile is left
    open. -/
def TakesText {α : Type} (At : Script) (p : Descent → Parser α) (text more : List Pattern)
    (a : α) : Prop :=
  ∀ (base : Session) (passed ahead : List Token), At (text ++ more) passed ahead →
    ∃ (base' : Session) (passed' ahead' : List Token), At more passed' ahead' ∧
      ∀ᶠ steps in Filter.atTop, p (descend steps) (base.between passed ahead) =
        .ok a (base'.between passed' ahead')

variable {α β : Type} {At : Script} {text front back more : List Pattern} {pattern : Pattern}
  {a : α} {b : β} {passed ahead : List Token}

/-! ## Reading off tokens -/

/-- A text without closing brackets is written with a token for each pattern. -/
theorem Writing.splits (hw : Writing At) (h : .operator .greater ∉ text) : Splits At text := by
  induction text with
  | nil => exact fun hat => ⟨[], _, .nil, rfl, hat⟩
  | cons pattern text ih =>
    rw [List.mem_cons, not_or] at h
    intro more passed ahead hat
    obtain ⟨token, rest, hmatches, rfl, hrest⟩ := hw.token (Ne.symm h.1) hat
    obtain ⟨tokens, rest, hspells, rfl, hmore⟩ := ih h.2 hrest
    exact ⟨token :: tokens, rest, .cons hmatches hspells, rfl, by simpa using hmore⟩

/-- A token shows the class of the pattern that it begins. -/
theorem Writing.first (hw : Writing At) (h : At (pattern :: more) passed ahead) :
    ∃ first rest, ahead = first :: rest ∧ first.kind = pattern.kind := by
  by_cases hgreater : pattern = .operator .greater
  · subst hgreater
    obtain ⟨first, rest, rfl, hangle, -⟩ := hw.close h
    exact ⟨first, rest, rfl, kind_of_isClosingAngle hangle⟩
  · obtain ⟨token, rest, ⟨line, rfl, -⟩, rfl, -⟩ := hw.token hgreater h
    exact ⟨_, rest, rfl, rfl⟩

/-! ## Putting parsers together -/

theorem TakesText.pure (a : α) : TakesText At (fun _ => pure a) [] more a :=
  fun base passed ahead hat => ⟨base, passed, ahead, hat, .of_forall fun _ => rfl⟩

theorem TakesText.bind {p : Descent → Parser α} {q : Descent → α → Parser β}
    (h : TakesText At p front (back ++ more) a) (h' : TakesText At (q · a) back more b) :
    TakesText At (fun parse => p parse >>= q parse) (front ++ back) more b := by
  intro base passed ahead hat
  rw [List.append_assoc] at hat
  obtain ⟨base', passed', ahead', hback, hp⟩ := h base passed ahead hat
  obtain ⟨base'', passed'', ahead'', hmore, hq⟩ := h' base' passed' ahead' hback
  refine ⟨base'', passed'', ahead'', hmore, ?_⟩
  filter_upwards [hp, hq] with steps h₁ h₂
  rw [bind_run, h₁]
  exact h₂

theorem TakesText.map {p : Descent → Parser α} (f : α → β) (h : TakesText At p text more a) :
    TakesText At (fun parse => f <$> p parse) text more (f a) := by
  intro base passed ahead hat
  obtain ⟨base', passed', ahead', hmore, hp⟩ := h base passed ahead hat
  refine ⟨base', passed', ahead', hmore, ?_⟩
  filter_upwards [hp] with steps h₁
  rw [map_run, h₁]

/-- A goal is taken as its rule takes it. -/
theorem TakesText.of_rule {goal : Goal α}
    (h : TakesText At (fun parse => rule parse goal) text more a) :
    TakesText At (fun parse => parse goal) text more a := by
  intro base passed ahead hat
  obtain ⟨base', passed', ahead', hmore, hread⟩ := h base passed ahead hat
  exact ⟨base', passed', ahead', hmore, Reads.of_rule hread⟩

/-! ## Elementary parsers -/

theorem takesText_currentLine {q : Descent → ℕ → Parser α}
    (h : ∀ line, TakesText At (q · line) text more a) :
    TakesText At (fun parse => currentLine >>= q parse) text more a :=
  fun base passed ahead hat =>
    h (base.between passed ahead).cursor.current.line base passed ahead hat

/-- Looking ahead shows a token of the class of the next pattern. -/
theorem takesText_peek (hw : Writing At) (hhead : text.head? = some pattern)
    {q : Descent → Token → Parser α}
    (h : ∀ first, first.kind = pattern.kind → TakesText At (q · first) text more a) :
    TakesText At (fun parse => peek >>= q parse) text more a := by
  intro base passed ahead hat
  obtain ⟨text, rfl⟩ := List.head?_eq_some_iff.mp hhead
  obtain ⟨first, rest, rfl, hkind⟩ := hw.first hat
  exact h first hkind base passed _ hat

/-- Looking ahead shows a closing bracket. -/
theorem takesText_peek_close (hw : Writing At) {q : Descent → Token → Parser α}
    (h : ∀ first, isClosingAngle first = true →
      TakesText At (q · first) [] (.operator .greater :: more) a) :
    TakesText At (fun parse => peek >>= q parse) [] (.operator .greater :: more) a := by
  intro base passed ahead hat
  obtain ⟨first, rest, rfl, hangle, -⟩ := hw.close hat
  exact h first hangle base passed _ hat

theorem takesText_advance (hw : Writing At) (hpattern : pattern ≠ .operator .greater)
    (heof : pattern.kind ≠ .eof) {q : Descent → Token → Parser α}
    (h : ∀ line, TakesText At (q · ⟨pattern.kind, pattern.text, line⟩) text more a) :
    TakesText At (fun parse => advance >>= q parse) (pattern :: text) more a := by
  intro base passed ahead hat
  obtain ⟨token, rest, ⟨line, rfl, -⟩, rfl, hrest⟩ := hw.token hpattern hat
  obtain ⟨base', passed', ahead', hmore, hread⟩ := h line base _ rest hrest
  refine ⟨base', passed', ahead', hmore, ?_⟩
  filter_upwards [hread] with steps h₁
  simp [heof, hw.ahead_ne_nil hrest, h₁]

/-- A parser that takes the next token if it passes a test. -/
theorem takesText_take (hw : Writing At) (hpattern : pattern ≠ .operator .greater)
    (heof : pattern.kind ≠ .eof) {test : Token → Bool}
    (htest : ∀ line, test ⟨pattern.kind, pattern.text, line⟩ = true) :
    TakesText At (fun _ => take test) [pattern] more true := by
  intro base passed ahead hat
  obtain ⟨token, rest, ⟨line, rfl, -⟩, rfl, hrest⟩ := hw.token hpattern hat
  refine ⟨base, _, rest, hrest, .of_forall fun steps => ?_⟩
  simp [htest, heof, hw.ahead_ne_nil hrest]

theorem takesText_comma (hw : Writing At) :
    TakesText At (fun _ => takePunctuation ",") [.mark ","] more true :=
  takesText_take hw (by decide) (by decide) (fun _ => rfl)

theorem takesText_close (hw : Writing At) :
    TakesText At (fun _ => expectClosingAngle) [.operator .greater] more () := by
  intro base passed ahead hat
  obtain ⟨-, -, -, -, passed', ahead', hmore, hclose⟩ := hw.close hat
  exact ⟨base, passed', ahead', hmore, .of_forall fun _ => hclose base⟩

/-! ## Plain texts -/

/-- A text is written with a token for each pattern, in front of `next` and `rest`. Read to its end,
    it leaves `final` behind, the last token first. -/
def plainScript (next : Token) (rest final : List Token) : Script := fun text passed ahead =>
  ∃ tokens, Spells text tokens ∧ ahead = tokens ++ next :: rest ∧ tokens.reverse ++ passed = final

theorem splits_plainScript (next : Token) (rest final : List Token) (text : List Pattern) :
    Splits (plainScript next rest final) text := by
  rintro more passed ahead ⟨tokens, hspells, rfl, rfl⟩
  obtain ⟨front, back, hfront, hback, rfl⟩ := spells_append_iff.mp hspells
  exact ⟨front, back ++ next :: rest, hfront, by simp, back, hback, rfl, by simp⟩

theorem text_greater (line : ℕ) : (Operator.greater.token line).text.toList = ['>'] := by
  simp [Operator.token, Operator.symbol]

theorem isClosingAngle_greater (line : ℕ) :
    isClosingAngle (Operator.greater.token line) = true := by
  rw [isClosingAngle, text_greater]
  rfl

theorem expectClosingAngle_greater (base : Session) (passed : List Token) (line : ℕ)
    {ahead : List Token} (hahead : ahead ≠ []) :
    expectClosingAngle (base.between passed (Operator.greater.token line :: ahead)) =
      .ok () (base.between (Operator.greater.token line :: passed) ahead) := by
  simp [expectClosingAngle, isClosingAngle_greater, text_greater, Operator.token_kind_ne_eof,
    hahead]

theorem writing_plainScript (next : Token) (rest final : List Token) :
    Writing (plainScript next rest final) where
  ahead_ne_nil := by
    rintro text passed ahead ⟨tokens, -, rfl, -⟩
    simp
  token := by
    rintro pattern more passed ahead - ⟨tokens, hspells, rfl, rfl⟩
    obtain ⟨line, tokens, hline, hmore, rfl⟩ := spells_cons_iff.mp hspells
    exact ⟨_, tokens ++ next :: rest, ⟨line, rfl, hline⟩, rfl, tokens, hmore, rfl, by simp⟩
  close := by
    rintro more passed ahead ⟨tokens, hspells, rfl, rfl⟩
    obtain ⟨line, tokens, hmore, rfl⟩ := spells_operator_iff.mp hspells
    refine ⟨_, tokens ++ next :: rest, rfl, isClosingAngle_greater line,
      Operator.greater.token line :: passed, _, ⟨tokens, hmore, rfl, by simp⟩, fun base => ?_⟩
    exact expectClosingAngle_greater base passed line (by simp)

/-- What is taken however it is written is taken from the tokens of a plain text. -/
theorem TakesText.takes {p : Descent → Parser α} {next : Token} {rest tokens : List Token}
    (h : ∀ final, TakesText (plainScript next rest final) p text [] a)
    (hspells : Spells text tokens) : Takes p tokens (next :: rest) a := by
  intro base passed
  have hat : plainScript next rest (tokens.reverse ++ passed) (text ++ []) passed
      (tokens ++ next :: rest) := ⟨tokens, by simpa using hspells, rfl, rfl⟩
  obtain ⟨base', passed', ahead', ⟨nothing, hnothing, rfl, hfinal⟩, hread⟩ := h _ base _ _ hat
  obtain rfl := spells_nil_iff.mp hnothing
  rw [List.reverse_nil, List.nil_append] at hfinal
  rw [List.nil_append, hfinal] at hread
  exact ⟨base', hread⟩

end SinFrontend.Parser
