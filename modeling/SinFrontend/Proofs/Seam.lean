import SinFrontend.Proofs.Run

/-!
# Runs over a common text

Two sessions have a text in common. In the first one a semicolon stands behind the text, in the
second one a comma or a closing parenthesis. No rule of the grammar reads on over such a mark with
success, so a run that ends with a value from the first session ends with this value from the
second one, and leaves as much of the text.

One thing tells the marks apart. Inside brackets or braces, and between the elements of a list, a
reader stops at a semicolon, but not at every other mark. It is left in front of the semicolon then,
where a closing symbol must follow, so that nothing comes of it. What may end in this way is called
loose.

* `Seam`: the marks behind a text, and what lies around text and mark.
* `Seam.Joins`: sessions with a text in common.
* `Seam.Carries`: what a run ends with from the first session, it ends with from the second one.
* `Seam.Stays`: from in front of the semicolon, a run ends with a value only if it stays there.
-/

namespace SinFrontend

/-- The marks behind a text that occurs twice. -/
structure Seam where
  /-- The mark behind the text where it stands alone. -/
  semicolon : Token
  /-- What lies behind that mark. -/
  behind : List Token
  /-- The mark behind the text where it stands among others. -/
  stop : Token
  /-- What lies behind that mark. -/
  rest : List Token
  /-- What has been read before the text there, the nearest first. -/
  before : List Token
  semicolon_form : semicolon.isPunctuation ";" = true
  stop_form : stop.isPunctuation "," = true ∨ stop.isPunctuation ")" = true
  behind_ne_nil : behind ≠ []

namespace Seam

/-- Two sessions with a text in common, in front of the marks of a seam. -/
structure Joins (seam : Seam) (text : List Token) (s t : Session) : Prop where
  alone : s.cursor.ahead = text ++ seam.semicolon :: seam.behind
  among : t.cursor.ahead = text ++ seam.stop :: seam.rest
  passed : t.cursor.passed = s.cursor.passed ++ seam.before
  text_solid : ∀ token ∈ text, token.kind ≠ .eof
  passed_solid : ∀ token ∈ s.cursor.passed, token.kind ≠ .eof

/-- A session stands in front of the semicolon of a seam. -/
def Reached (seam : Seam) (s : Session) : Prop :=
  s.cursor.ahead = seam.semicolon :: seam.behind

variable {seam : Seam} {text more : List Token} {token : Token} {s t : Session}

/-! ## The marks -/

theorem semicolon_kind : seam.semicolon.kind = .punctuation :=
  Parser.kind_of_isPunctuation seam.semicolon_form

theorem stop_kind : seam.stop.kind = .punctuation :=
  seam.stop_form.elim Parser.kind_of_isPunctuation Parser.kind_of_isPunctuation

theorem semicolon_text : seam.semicolon.text = ";" :=
  Parser.text_of_isPunctuation seam.semicolon_form

theorem stop_text : seam.stop.text = "," ∨ seam.stop.text = ")" :=
  seam.stop_form.imp Parser.text_of_isPunctuation Parser.text_of_isPunctuation

/-- No mark is anything else than punctuation. -/
theorem hasForm_mark {mark : Token} (hmark : mark.kind = .punctuation) {kind : Token.Kind}
    (hkind : kind ≠ .punctuation) (text : String) : mark.hasForm kind text = false := by
  simp [Token.hasForm, hmark, hkind.symm]

/-! ## Sessions in front of the semicolon -/

theorem Reached.current (h : seam.Reached s) : s.cursor.current = seam.semicolon :=
  (List.cons.inj h).1

theorem Reached.rest (h : seam.Reached s) : s.cursor.rest = seam.behind :=
  (List.cons.inj h).2

theorem Reached.kind (h : seam.Reached s) : s.cursor.current.kind = .punctuation :=
  h.current ▸ semicolon_kind

theorem Reached.text_eq (h : seam.Reached s) : s.cursor.current.text = ";" :=
  h.current ▸ semicolon_text

theorem Reached.hasForm (h : seam.Reached s) {kind : Token.Kind} (hkind : kind ≠ .punctuation)
    (text : String) : s.cursor.current.hasForm kind text = false :=
  hasForm_mark h.kind hkind text

theorem Reached.isPunctuation (h : seam.Reached s) {mark : String} (hmark : mark ≠ ";") :
    s.cursor.current.isPunctuation mark = false := by
  simp [Token.isPunctuation, Token.hasForm, h.text_eq, hmark.symm]

theorem Reached.operator? (h : seam.Reached s) : s.cursor.current.operator? = none := by
  simp only [Token.operator?, h.kind, h.text_eq]
  rfl

/-- The semicolon itself can be read. -/
theorem Reached.advance (h : seam.Reached s) :
    (s.on .advance).cursor.previous = seam.semicolon := by
  obtain ⟨⟨passed, current, rest⟩, diagnostics, start⟩ := s
  obtain rfl : current = seam.semicolon := h.current
  obtain rfl : rest = seam.behind := h.rest
  obtain ⟨next, others, hbehind⟩ := List.exists_cons_of_ne_nil seam.behind_ne_nil
  simp [Session.on, Cursor.advance, Cursor.atEnd, semicolon_kind, hbehind, Cursor.previous]

/-! ## Sessions over a common text -/

namespace Joins

theorem reached (h : seam.Joins [] s t) : seam.Reached s := h.alone

theorem current_nil (h : seam.Joins [] s t) : t.cursor.current = seam.stop :=
  (List.cons.inj h.among).1

theorem current_cons (h : seam.Joins (token :: more) s t) :
    s.cursor.current = token ∧ t.cursor.current = token :=
  ⟨(List.cons.inj h.alone).1, (List.cons.inj h.among).1⟩

theorem rest_cons (h : seam.Joins (token :: more) s t) :
    s.cursor.rest = more ++ seam.semicolon :: seam.behind ∧
      t.cursor.rest = more ++ seam.stop :: seam.rest :=
  ⟨(List.cons.inj h.alone).2, (List.cons.inj h.among).2⟩

/-- A test that no mark passes does not tell the sessions apart. -/
theorem test_eq (h : seam.Joins text s t) (test : Token → Bool)
    (hsemicolon : test seam.semicolon = false) (hstop : test seam.stop = false) :
    test s.cursor.current = test t.cursor.current := by
  cases text with
  | nil => rw [h.reached.current, h.current_nil, hsemicolon, hstop]
  | cons token more => rw [h.current_cons.1, h.current_cons.2]

theorem hasForm_eq (h : seam.Joins text s t) {kind : Token.Kind} (hkind : kind ≠ .punctuation)
    (word : String) : s.cursor.current.hasForm kind word = t.cursor.current.hasForm kind word :=
  h.test_eq (Token.hasForm · kind word) (hasForm_mark semicolon_kind hkind word)
    (hasForm_mark stop_kind hkind word)

theorem kind_eq (h : seam.Joins text s t) : s.cursor.current.kind = t.cursor.current.kind := by
  cases text with
  | nil => rw [h.reached.kind, h.current_nil, stop_kind]
  | cons token more => rw [h.current_cons.1, h.current_cons.2]

theorem isPunctuation_eq (h : seam.Joins text s t) {mark : String} (hsemicolon : mark ≠ ";")
    (hcomma : mark ≠ ",") (hparen : mark ≠ ")") :
    s.cursor.current.isPunctuation mark = t.cursor.current.isPunctuation mark := by
  refine h.test_eq (Token.isPunctuation · mark) ?_ ?_
  · simp [Token.isPunctuation, Token.hasForm, semicolon_text, hsemicolon.symm]
  · rcases seam.stop_text with hstop | hstop <;>
      simp [Token.isPunctuation, Token.hasForm, hstop, hcomma.symm, hparen.symm]

/-- No mark spells an operator. -/
theorem operator?_eq (h : seam.Joins text s t) :
    s.cursor.current.operator? = t.cursor.current.operator? := by
  cases text with
  | nil =>
    have hstop : seam.stop.operator? = none := by
      simp only [Token.operator?, stop_kind]
      rcases seam.stop_text with hstop | hstop <;> rw [hstop] <;> rfl
    rw [h.reached.operator?, h.current_nil, hstop]
  | cons token more => rw [h.current_cons.1, h.current_cons.2]

theorem takeWhile_eq (h : seam.Joins text s t) {test : Token → Bool}
    (hsemicolon : test seam.semicolon = false) (hstop : test seam.stop = false) :
    s.cursor.ahead.takeWhile test = text.takeWhile test ∧
      t.cursor.ahead.takeWhile test = text.takeWhile test := by
  have hend (text rest : List Token) {mark : Token} (hmark : test mark = false) :
      (text ++ mark :: rest).takeWhile test = text.takeWhile test := by
    induction text with
    | nil => simp [hmark]
    | cons token more ih => simp only [List.cons_append, List.takeWhile_cons, ih]
  exact ⟨h.alone ▸ hend _ _ hsemicolon, h.among ▸ hend _ _ hstop⟩

theorem keywordFollows_eq (h : seam.Joins (token :: more) s t) :
    s.cursor.rest.head?.any (·.kind == .keyword) =
      t.cursor.rest.head?.any (·.kind == .keyword) := by
  rw [h.rest_cons.1, h.rest_cons.2]
  cases more <;> simp [semicolon_kind, stop_kind]

/-- A token of the text is read. -/
theorem advance (h : seam.Joins (token :: more) s t) :
    seam.Joins more (s.on .advance) (t.on .advance) ∧ 0 < (s.on .advance).past ∧
      (s.on .advance).cursor.previous = token ∧ (t.on .advance).cursor.previous = token := by
  have hkind : token.kind ≠ .eof := h.text_solid token List.mem_cons_self
  have hmore : ∀ other ∈ more, other.kind ≠ .eof :=
    fun other hmem => h.text_solid other (List.mem_cons_of_mem _ hmem)
  obtain ⟨⟨passed, current, rest⟩, diagnostics, start⟩ := s
  obtain ⟨⟨passed', current', rest'⟩, diagnostics', start'⟩ := t
  obtain ⟨rfl, rfl⟩ : current = token ∧ current' = token := h.current_cons
  obtain ⟨rfl, rfl⟩ := h.rest_cons
  obtain rfl : passed' = passed ++ seam.before := h.passed
  have hpassed : ∀ other ∈ current' :: passed, other.kind ≠ .eof := by
    intro other hmem
    rcases List.mem_cons.mp hmem with rfl | hmem
    · exact hkind
    · exact h.passed_solid other hmem
  cases more with
  | nil =>
    simp only [Session.on, Cursor.advance, Cursor.atEnd, beq_eq_false_iff_ne.mpr hkind]
    exact ⟨⟨rfl, rfl, rfl, hmore, hpassed⟩, Nat.succ_pos _, rfl, rfl⟩
  | cons next more =>
    simp only [Session.on, Cursor.advance, Cursor.atEnd, beq_eq_false_iff_ne.mpr hkind]
    exact ⟨⟨rfl, rfl, rfl, hmore, hpassed⟩, Nat.succ_pos _, rfl, rfl⟩

/-- A token that has been read belongs to the text again after going back over it. -/
theorem retreat (h : seam.Joins text s t) (hpast : 0 < s.past) :
    seam.Joins (s.cursor.previous :: text) (s.on .retreat) (t.on .retreat) := by
  obtain ⟨⟨passed, current, rest⟩, diagnostics, start⟩ := s
  obtain ⟨⟨passed', current', rest'⟩, diagnostics', start'⟩ := t
  obtain ⟨last, passed, rfl⟩ := List.exists_cons_of_length_pos hpast
  obtain rfl : passed' = (last :: passed) ++ seam.before := h.passed
  refine ⟨congrArg _ h.alone, congrArg _ h.among, rfl, ?_, ?_⟩
  · intro token hmem
    rcases List.mem_cons.mp hmem with rfl | hmem
    · exact h.passed_solid _ List.mem_cons_self
    · exact h.text_solid token hmem
  · exact fun token hmem => h.passed_solid token (List.mem_cons_of_mem _ hmem)

theorem replaceText (h : seam.Joins (token :: more) s t) (word : String) :
    seam.Joins ({ token with text := word } :: more) (s.on (·.replaceText word))
      (t.on (·.replaceText word)) := by
  obtain ⟨hs, ht⟩ := h.current_cons
  obtain ⟨hs', ht'⟩ := h.rest_cons
  refine ⟨?_, ?_, h.passed, fun other hmem => ?_, h.passed_solid⟩
  · simp [Session.on, Cursor.replaceText, Cursor.ahead, hs, hs']
  · simp [Session.on, Cursor.replaceText, Cursor.ahead, ht, ht']
  · rcases List.mem_cons.mp hmem with rfl | hmem
    · exact h.text_solid token List.mem_cons_self
    · exact h.text_solid other (List.mem_cons_of_mem _ hmem)

end Joins

/-! ## Runs -/

variable {α β : Type} {loose loose' : Prop}

/-- What a run ends with from the first session, another one ends with from the second session,
    again with a text in common. A loose run may also stop in front of the semicolon. -/
def Carries (seam : Seam) (loose : Prop) (p q : Parser α) (s t : Session) : Prop :=
  ∀ ⦃a s'⦄, p s = .ok a s' →
    (∃ text t', q t = .ok a t' ∧ seam.Joins text s' t') ∨ loose ∧ seam.Reached s'

/-- A run ends with a value only if it is loose, and stops in front of the semicolon. -/
def Stays (seam : Seam) (loose : Prop) (p : Parser α) (s : Session) : Prop :=
  ∀ ⦃a s'⦄, p s = .ok a s' → loose ∧ seam.Reached s'

namespace Stays

variable {p : Parser α} {f : α → Parser β}

theorem of_error {failure : Failure} {s' : Session} (h : p s = .error failure s') :
    seam.Stays loose p s := by
  intro a later hrun
  rw [h] at hrun
  cases hrun

theorem weaken (h : seam.Stays loose p s) (hle : loose → loose') : seam.Stays loose' p s :=
  fun _ _ hrun => (h hrun).imp_left hle

theorem pure {a : α} (hloose : loose) (h : seam.Reached s) : seam.Stays loose (pure a) s := by
  intro b later hrun
  cases hrun
  exact ⟨hloose, h⟩

theorem ite {c : Prop} [Decidable c] {p' : Parser α} (yes : c → seam.Stays loose p s)
    (no : ¬ c → seam.Stays loose p' s) : seam.Stays loose (if c then p else p') s := by
  split
  · exact yes ‹_›
  · exact no ‹_›

theorem bind (h : seam.Stays loose p s)
    (hf : loose → ∀ a s', seam.Reached s' → seam.Stays loose' (f a) s') :
    seam.Stays loose' (p >>= f) s := by
  intro b later hrun
  obtain ⟨a, middle, hp, hrun⟩ := Parser.exists_of_bind hrun
  obtain ⟨hloose, hreached⟩ := h hp
  exact hf hloose a middle hreached hrun

theorem bind_strict (h : seam.Stays False p s) : seam.Stays loose (p >>= f) s :=
  h.bind fun hfalse => hfalse.elim

end Stays

namespace Carries

variable {p q : Parser α} {f g : α → Parser β}

theorem pure {a : α} (h : seam.Joins text s t) : seam.Carries loose (pure a) (pure a) s t := by
  intro b later hrun
  cases hrun
  exact .inl ⟨text, t, rfl, h⟩

theorem reject {cause : Cause} {line : ℕ} :
    seam.Carries loose (Parser.reject cause line) q s t := by
  intro a later hrun
  cases hrun

theorem reject_bind {cause : Cause} {line : ℕ} {q : Parser β} :
    seam.Carries loose (Parser.reject cause line >>= f) q s t := by
  intro b later hrun
  cases hrun

theorem of_stays (h : seam.Stays loose p s) : seam.Carries loose p q s t :=
  fun _ _ hrun => .inr (h hrun)

theorem weaken (h : seam.Carries loose p q s t) (hle : loose → loose') :
    seam.Carries loose' p q s t :=
  fun _ _ hrun => (h hrun).imp_right (And.imp_left hle)

/-- What follows a run goes on over a common text, or from in front of the semicolon. -/
theorem bind (h : seam.Carries loose p q s t)
    (hstuck : loose → ∀ a s', seam.Reached s' → seam.Stays loose' (f a) s')
    (hf : ∀ a text s' t', seam.Joins text s' t' → seam.Carries loose' (f a) (g a) s' t') :
    seam.Carries loose' (p >>= f) (q >>= g) s t := by
  intro b later hrun
  obtain ⟨a, middle, hp, hrun⟩ := Parser.exists_of_bind hrun
  rcases h hp with ⟨text, middle', hq, hjoins⟩ | ⟨hloose, hreached⟩
  · rcases hf a text middle middle' hjoins hrun with ⟨text', later', hlater, hjoins'⟩ | hstays
    · exact .inl ⟨text', later', by rw [Parser.bind_run, hq]; exact hlater, hjoins'⟩
    · exact .inr hstays
  · exact .inr (hstuck hloose a middle hreached hrun)

/-- What follows a run that is not loose goes on over a common text. -/
theorem bind_strict (h : seam.Carries False p q s t)
    (hf : ∀ a text s' t', seam.Joins text s' t' → seam.Carries loose' (f a) (g a) s' t') :
    seam.Carries loose' (p >>= f) (q >>= g) s t :=
  h.bind False.elim hf

theorem map (h : seam.Carries loose p q s t) (make : α → β) :
    seam.Carries loose (do return make (← p)) (do return make (← q)) s t :=
  h.bind (fun hloose _ _ hreached => .pure hloose hreached) fun _ _ _ _ hjoins => .pure hjoins

theorem ite {c : Prop} [Decidable c] {p' q' : Parser α} (yes : c → seam.Carries loose p q s t)
    (no : ¬ c → seam.Carries loose p' q' s t) :
    seam.Carries loose (if c then p else p') (if c then q else q') s t := by
  split
  · exact yes ‹_›
  · exact no ‹_›

/-! ## Looking -/

theorem peek_bind {f g : Token → Parser β}
    (h : seam.Carries loose (f s.cursor.current) (g t.cursor.current) s t) :
    seam.Carries loose (Parser.peek >>= f) (Parser.peek >>= g) s t := h

theorem atPunctuation_bind {f g : Bool → Parser β} {mark : String}
    (h : seam.Carries loose (f (s.cursor.current.isPunctuation mark))
      (g (t.cursor.current.isPunctuation mark)) s t) :
    seam.Carries loose (Parser.atPunctuation mark >>= f) (Parser.atPunctuation mark >>= g) s t := h

theorem currentLine_bind {f g : ℕ → Parser β}
    (h : seam.Carries loose (f s.cursor.current.line) (g t.cursor.current.line) s t) :
    seam.Carries loose (Parser.currentLine >>= f) (Parser.currentLine >>= g) s t := h

theorem previousLine_bind {f g : ℕ → Parser β}
    (h : seam.Carries loose (f s.cursor.previous.line) (g t.cursor.previous.line) s t) :
    seam.Carries loose (Parser.previousLine >>= f) (Parser.previousLine >>= g) s t := h

/-- Whether a reserved word stands behind a token of the text does not depend on the marks. -/
theorem keywordFollows_bind {f g : Bool → Parser β} (h : seam.Joins (token :: more) s t)
    (hf : ∀ follows, seam.Carries loose (f follows) (g follows) s t) :
    seam.Carries loose (Parser.keywordFollows >>= f) (Parser.keywordFollows >>= g) s t := by
  intro b later hrun
  change f (s.cursor.rest.head?.any (·.kind == .keyword)) s = _ at hrun
  change (∃ text' t', g (t.cursor.rest.head?.any (·.kind == .keyword)) t = _ ∧ _) ∨ _
  rw [← h.keywordFollows_eq]
  exact hf _ hrun

/-! ## Moving -/

theorem move_bind {f g : Unit → Parser β} (h : seam.Joins (token :: more) s t)
    (hf : seam.Joins more (s.on .advance) (t.on .advance) →
      seam.Carries loose (f ()) (g ()) (s.on .advance) (t.on .advance)) :
    seam.Carries loose (Parser.move Cursor.advance >>= f) (Parser.move Cursor.advance >>= g) s t :=
  hf h.advance.1

/-- The token that was read last belongs to the text again. -/
theorem retreat_bind {f g : Unit → Parser β} (h : seam.Joins text s t) (hpast : 0 < s.past)
    (hf : seam.Joins (s.cursor.previous :: text) (s.on .retreat) (t.on .retreat) →
      seam.Carries loose (f ()) (g ()) (s.on .retreat) (t.on .retreat)) :
    seam.Carries loose (Parser.retreat >>= f) (Parser.retreat >>= g) s t :=
  hf (h.retreat hpast)

theorem record (h : seam.Joins text s t) (diagnostic diagnostic' : Diagnostic) :
    seam.Carries loose (Parser.record diagnostic) (Parser.record diagnostic') s t := by
  intro a later hrun
  cases hrun
  exact .inl ⟨text, _, rfl, h.alone, h.among, h.passed, h.text_solid, h.passed_solid⟩

/-- Tokens of the text are handed out alike. -/
theorem advance_bind {f g : Token → Parser β} (h : seam.Joins (token :: more) s t)
    (hf : seam.Joins more (s.on .advance) (t.on .advance) → 0 < (s.on .advance).past →
      seam.Carries loose (f token) (g token) (s.on .advance) (t.on .advance)) :
    seam.Carries loose (Parser.advance >>= f) (Parser.advance >>= g) s t := by
  obtain ⟨hmore, hpast, hs, ht⟩ := h.advance
  have hcarries := hf hmore hpast
  intro b later hrun
  rw [Parser.bind_run, Parser.advance_run, hs] at hrun
  rw [Parser.bind_run, Parser.advance_run, ht]
  exact hcarries hrun

/-- A token is taken alike if the test is not for a mark. -/
theorem take (h : seam.Joins text s t) {test : Token → Bool}
    (hsemicolon : test seam.semicolon = false) (hstop : test seam.stop = false) :
    seam.Carries loose (Parser.take test) (Parser.take test) s t := by
  intro taken later hrun
  rw [Parser.take_run] at hrun ⊢
  rw [← h.test_eq _ hsemicolon hstop]
  cases htest : test s.cursor.current with
  | false =>
    rw [htest] at hrun
    cases hrun
    exact .inl ⟨text, t, rfl, h⟩
  | true =>
    rw [htest] at hrun
    cases hrun
    cases text with
    | nil =>
      rw [h.reached.current, hsemicolon] at htest
      cases htest
    | cons token more => exact .inl ⟨more, _, rfl, h.advance.1⟩

theorem takeOperator (h : seam.Joins text s t) (symbol : String) :
    seam.Carries loose (Parser.takeOperator symbol) (Parser.takeOperator symbol) s t :=
  .take h (hasForm_mark semicolon_kind (by decide) _) (hasForm_mark stop_kind (by decide) _)

theorem takeKeyword (h : seam.Joins text s t) (word : String) :
    seam.Carries loose (Parser.takeKeyword word) (Parser.takeKeyword word) s t :=
  .take h (hasForm_mark semicolon_kind (by decide) _) (hasForm_mark stop_kind (by decide) _)

/-- A comma of the text is taken alike. In front of the semicolon there is none, whereas the other
    mark may be one. -/
theorem takeComma_bind {f g : Bool → Parser β} (h : seam.Joins text s t)
    (yes : ∀ more s' t', seam.Joins more s' t' → seam.Carries loose (f true) (g true) s' t')
    (no : seam.Carries loose (f false) (g false) s t)
    (stuck : seam.Reached s → seam.Stays loose (f false) s) :
    seam.Carries loose (Parser.takePunctuation "," >>= f) (Parser.takePunctuation "," >>= g)
      s t := by
  intro b later hrun
  rw [Parser.bind_run, Parser.takePunctuation_run] at hrun ⊢
  cases text with
  | nil =>
    rw [h.reached.isPunctuation (by decide)] at hrun
    exact .inr (stuck h.reached hrun)
  | cons token more =>
    obtain ⟨hs, ht⟩ := h.current_cons
    rw [hs] at hrun
    rw [ht]
    cases hcomma : token.isPunctuation "," with
    | true =>
      rw [hcomma] at hrun
      exact yes more _ _ h.advance.1 hrun
    | false =>
      rw [hcomma] at hrun
      exact no hrun

end Carries

/-! ## Demanding -/

/-- In front of the semicolon no other mark is found. -/
theorem Stays.expectPunctuation {symbol : String} (h : seam.Reached s) (hsymbol : symbol ≠ ";")
    (context : String) : seam.Stays loose (Parser.expectPunctuation symbol context) s :=
  .of_error (by
    simp only [Parser.expectPunctuation, Parser.bind_run, Parser.takePunctuation_run,
      h.isPunctuation hsymbol]
    rfl)

theorem Carries.expectPunctuation {symbol : String} (h : seam.Joins text s t)
    (hsymbol : symbol ≠ ";") (context : String) :
    seam.Carries loose (Parser.expectPunctuation symbol context)
      (Parser.expectPunctuation symbol context) s t := by
  cases text with
  | nil => exact .of_stays (.expectPunctuation h.reached hsymbol context)
  | cons token more =>
    intro a later hrun
    obtain ⟨hs, ht⟩ := h.current_cons
    cases hmark : token.isPunctuation symbol with
    | false => simp [Parser.expectPunctuation, hs, hmark] at hrun
    | true =>
      simp only [Parser.expectPunctuation, Parser.bind_run, Parser.takePunctuation_run, hs, ht,
        hmark, if_true, Parser.pure_run] at hrun ⊢
      cases hrun
      exact .inl ⟨more, _, rfl, h.advance.1⟩

end Seam

end SinFrontend
