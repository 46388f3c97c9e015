import SinFrontend.Proofs.Run

/-!
# Where parsers leave a session

However a parser ends, it has only moved on from where it started, taken closing brackets off
tokens, and noted things. Where it goes back over a token, it reads that token again before it can
fail, so that going back does not show.

* `Cursor.tokens`: the tokens that a cursor moves over. Only closing brackets ever change.
* `Session.Onward`: what can become of a session in this way.
* `EndsOnward`: a run ends onward of a session. Whether it may use up its steps is a parameter.
* `Leads`: from where a parser may start, and what holds where it leaves a value.
* `LeadsFirst`: a parser that, whatever comes of it, has read the first token.
-/

namespace SinFrontend

/-! ## The tokens under a cursor -/

/-- All tokens, those before the place and those from it on. -/
def Cursor.tokens (cursor : Cursor) : List Token :=
  cursor.passed.reverse ++ cursor.ahead

theorem Session.ahead_eq_drop (s : Session) : s.cursor.ahead = s.cursor.tokens.drop s.past := by
  rw [Cursor.tokens, past, ← List.length_reverse, List.drop_left]

theorem Session.getElem?_past (s : Session) : s.cursor.tokens[s.past]? = some s.cursor.current := by
  rw [← Nat.add_zero s.past, ← List.getElem?_drop, ← s.ahead_eq_drop]
  rfl

/-- At most an end of input is added to the tokens that a session is started on. -/
theorem Session.tokens_ofTokens_or (tokens : List Token) :
    (Session.ofTokens tokens).cursor.tokens = tokens ∨
      ∃ line, (Session.ofTokens tokens).cursor.tokens = tokens ++ [Token.eof line] := by
  cases tokens with
  | nil => exact .inr ⟨1, rfl⟩
  | cons first rest =>
    simp only [ofTokens, Cursor.ofTokens, Cursor.tokens, Cursor.ahead, List.reverse_nil,
      List.nil_append]
    split
    · exact .inl rfl
    · exact .inr ⟨_, rfl⟩

/-- A token, unless closing brackets may be taken off it. -/
def Token.solid? (token : Token) : Option Token :=
  if Parser.isClosingAngle token then none else some token

/-- The class and the text of a token that is no operator show even if closing brackets may be taken
    off it. -/
theorem hasForm_of_solid? {token other : Token} (h : Token.solid? token = Token.solid? other)
    {kind : Token.Kind} (hkind : kind ≠ .operator) (text : String) :
    token.hasForm kind text = other.hasForm kind text := by
  have hform (token : Token) : token.hasForm kind text =
      ((Token.solid? token).map (·.hasForm kind text)).getD false := by
    unfold Token.solid?
    split
    next hangle => simp [Token.hasForm, Parser.kind_of_isClosingAngle hangle, hkind.symm]
    next => rfl
  rw [hform, h, ← hform]

@[simp] theorem Cursor.tokens_advance (cursor : Cursor) :
    cursor.advance.tokens = cursor.tokens := by
  unfold Cursor.advance
  split
  · rfl
  · split
    · rfl
    next hrest => simp [Cursor.tokens, Cursor.ahead, hrest]

@[simp] theorem Cursor.tokens_retreat (cursor : Cursor) :
    cursor.retreat.tokens = cursor.tokens := by
  unfold Cursor.retreat
  split
  · rfl
  next hpassed => simp [Cursor.tokens, Cursor.ahead, hpassed]

@[simp] theorem Cursor.tokens_advanceBy (cursor : Cursor) (count : ℕ) :
    (cursor.advanceBy count).tokens = cursor.tokens := by
  induction count generalizing cursor with
  | zero => rfl
  | succ count ih => rw [Cursor.advanceBy, ih, Cursor.tokens_advance]

@[simp] theorem Cursor.tokens_retreatTo (cursor : Cursor) (count : ℕ) :
    (cursor.retreatTo count).tokens = cursor.tokens := by
  suffices hgo : ∀ (steps : ℕ) (cursor : Cursor),
      (Cursor.retreatTo.go steps cursor).tokens = cursor.tokens from hgo _ _
  intro steps
  induction steps with
  | zero => exact fun _ => rfl
  | succ steps ih => exact fun cursor => (ih _).trans cursor.tokens_retreat

theorem isClosingAngle_split {token : Token} {c : Char} {more : List Char}
    (h : Parser.isClosingAngle token = true) (htext : token.text.toList = c :: more)
    (several : more ≠ []) :
    Parser.isClosingAngle { token with text := String.ofList more } = true := by
  simp only [Parser.isClosingAngle, htext, List.all_cons, Bool.and_eq_true] at h
  obtain ⟨⟨hkind, -⟩, -, hmore⟩ := h
  simp only [Parser.isClosingAngle, String.toList_ofList, hkind, hmore]
  simpa using several

/-- Taking a bracket off a token changes nothing but closing brackets. -/
theorem Cursor.map_solid?_replaceText {cursor : Cursor} {c : Char} {more : List Char}
    (h : Parser.isClosingAngle cursor.current = true)
    (htext : cursor.current.text.toList = c :: more) (several : more ≠ []) :
    (cursor.replaceText (String.ofList more)).tokens.map Token.solid? =
      cursor.tokens.map Token.solid? := by
  have hsplit := isClosingAngle_split h htext several
  simp [Cursor.tokens, Cursor.ahead, Cursor.replaceText, Token.solid?, h, hsplit]

/-! ## Moving on -/

namespace Session

/-- The token that was read last is no semicolon. -/
def Firm (session : Session) : Prop :=
  session.cursor.previous.isPunctuation ";" = false

/-- A session comes out of `base` by reading tokens, by taking the first bracket off a token of
    several closing ones, and by noting something. No bracket is taken off behind a semicolon. -/
inductive Onward (base : Session) : Session → Prop where
  | refl : base.Onward base
  | advance {s : Session} (onward : base.Onward s) : base.Onward (s.on .advance)
  | split {s : Session} {c : Char} {more : List Char} (onward : base.Onward s)
    (closing : Parser.isClosingAngle s.cursor.current = true) (firm : s.Firm)
    (text : s.cursor.current.text.toList = c :: more) (several : more ≠ []) :
    base.Onward (s.on (·.replaceText (String.ofList more)))
  | record {s : Session} (onward : base.Onward s) (diagnostic : Diagnostic) :
    base.Onward { s with diagnostics := s.diagnostics ++ [diagnostic] }

variable {base s later : Session}

theorem Onward.trans (h : base.Onward s) (h' : s.Onward later) : base.Onward later := by
  induction h' with
  | refl => exact h
  | advance _ ih => exact .advance ih
  | split _ closing firm text several ih => exact .split ih closing firm text several
  | record _ diagnostic ih => exact .record ih diagnostic

/-- Where a statement begins does not change while it is read. -/
theorem Onward.statementStart (h : base.Onward later) :
    later.statementStart = base.statementStart := by
  induction h with
  | refl => rfl
  | advance _ ih => exact ih
  | split _ _ _ _ _ ih => exact ih
  | record _ _ ih => exact ih

theorem Onward.map_solid? (h : base.Onward later) :
    later.cursor.tokens.map Token.solid? = base.cursor.tokens.map Token.solid? := by
  induction h with
  | refl => rfl
  | advance _ ih => exact (congrArg _ (Cursor.tokens_advance _)).trans ih
  | split _ closing _ text several ih =>
    exact (Cursor.map_solid?_replaceText closing text several).trans ih
  | record _ _ ih => exact ih

theorem Onward.forward (h : base.Onward later) (hbase : base.Tidy) : base.Forward 0 later := by
  induction h with
  | refl => exact .refl hbase
  | advance _ ih => exact ih.trans ((Forward.advance_min ih.tidy).weaken (Nat.zero_le _))
  | split _ _ _ _ _ ih => exact ih.trans (.replaceText ih.tidy _)
  | record _ _ ih => exact ⟨⟨ih.tidy.closed, ih.tidy.passed⟩, ih.total, ih.near⟩

theorem Onward.tidy (h : base.Onward later) (hbase : base.Tidy) : later.Tidy :=
  (h.forward hbase).tidy

/-- At the end of input there is nothing to move on to. -/
theorem Onward.atEnd (h : base.Onward later) (hend : base.atEnd = true) : later.atEnd = true := by
  induction h with
  | refl => exact hend
  | advance _ ih => rwa [on_advance_of_atEnd ih]
  | split _ closing _ _ _ ih =>
    simp [Session.atEnd, Cursor.atEnd, Parser.kind_of_isClosingAngle closing] at ih
  | record _ _ ih => exact ih

/-- Only at the end of input is nothing read, and nothing has been read before that. -/
theorem Tidy.past_pos_of_advance (hs : s.Tidy)
    (h : (s.on .advance).cursor.previous.kind ≠ .eof) : 0 < (s.on .advance).past := by
  by_cases heof : s.cursor.current.kind = .eof
  · have hend : s.atEnd = true := by simp [atEnd, Cursor.atEnd, heof]
    rw [on_advance_of_atEnd hend] at h ⊢
    refine Nat.pos_of_ne_zero fun hnone => h ?_
    have hpassed : s.cursor.passed = [] := List.eq_nil_of_length_eq_zero hnone
    simpa [Cursor.previous, hpassed] using heof
  · have := (Forward.advance hs heof).past_le
    omega

theorem Tidy.firm_advance (hs : s.Tidy) (heof : s.cursor.current.kind ≠ .eof)
    (h : s.cursor.current.isPunctuation ";" = false) : (s.on .advance).Firm := by
  rw [Firm, hs.advance_previous heof]
  exact h

/-- A token that was read is read again after going back over it. -/
theorem Tidy.advance_retreat (hs : s.Tidy) (h : 0 < s.past) : (s.on .retreat).on .advance = s := by
  obtain ⟨⟨passed, current, rest⟩, diagnostics, start⟩ := s
  obtain ⟨last, passed, rfl⟩ := List.exists_cons_of_length_pos h
  have hlast : last.kind ≠ .eof := hs.passed last List.mem_cons_self
  simp [on, Cursor.retreat, Cursor.advance, Cursor.atEnd, hlast]

end Session

namespace Parser

variable {α β : Type} {loose : Prop}

/-- A parser that only looks at the session. -/
def Looks (p : Parser α) : Prop :=
  ∀ s, ∃ a, p s = .ok a s

/-! ## Runs -/

/-- A run ends onward of a session. A value and the session with it satisfy `post`, and only if
    `loose` holds may the run have used up its steps. -/
inductive EndsOnward (loose : Prop) (base : Session) (post : α → Session → Prop) :
    EStateM.Result Failure Session α → Prop where
  | ok {a : α} {later : Session} : base.Onward later → post a later →
    EndsOnward loose base post (.ok a later)
  | rejected {error : CompileError} {later : Session} : base.Onward later →
    EndsOnward loose base post (.error (.rejected error) later)
  | unfinished {later : Session} : loose → EndsOnward loose base post (.error .unfinished later)

namespace EndsOnward

variable {base s : Session} {post : α → Session → Prop} {result : EStateM.Result Failure Session α}

theorem from_onward (h : EndsOnward loose s post result) (hs : base.Onward s) :
    EndsOnward loose base post result := by
  cases h with
  | ok honward hpost => exact .ok (hs.trans honward) hpost
  | rejected honward => exact .rejected (hs.trans honward)
  | unfinished hloose => exact .unfinished hloose

theorem mono {weaker : α → Session → Prop} (h : EndsOnward loose s post result)
    (hpost : ∀ a later, post a later → weaker a later) : EndsOnward loose s weaker result := by
  cases h with
  | ok honward hholds => exact .ok honward (hpost _ _ hholds)
  | rejected honward => exact .rejected honward
  | unfinished hloose => exact .unfinished hloose

theorem of_ok {a : α} {later : Session} (h : EndsOnward loose base post result)
    (hrun : result = .ok a later) : base.Onward later ∧ post a later := by
  subst hrun
  cases h with
  | ok honward hpost => exact ⟨honward, hpost⟩

theorem of_rejected {error : CompileError} {later : Session}
    (h : EndsOnward loose base post result) (hrun : result = .error (.rejected error) later) :
    base.Onward later := by
  subst hrun
  cases h with
  | rejected honward => exact honward

/-- What follows a run goes on from where the run ends. -/
theorem bind {p : Parser α} {f : α → Parser β} {post' : β → Session → Prop} (hbase : base.Tidy)
    (h : EndsOnward loose base post (p s))
    (hf : ∀ a later, later.Tidy → post a later → EndsOnward loose later post' (f a later)) :
    EndsOnward loose base post' ((p >>= f) s) := by
  rw [bind_run]
  generalize p s = result at h ⊢
  cases h with
  | ok honward hholds => exact (hf _ _ (honward.tidy hbase) hholds).from_onward honward
  | rejected honward => exact .rejected honward
  | unfinished hloose => exact .unfinished hloose

/-- An error may be replaced by another one. -/
theorem explaining {p : Parser α} {explain : CompileError → Parser CompileError}
    (h : EndsOnward loose base post (p s))
    (hexplain : ∀ error, Looks (explain error)) :
    EndsOnward loose base post (explaining p explain s) := by
  rw [explaining_run]
  generalize p s = result at h ⊢
  cases h with
  | ok honward hholds => exact .ok honward hholds
  | unfinished hloose => exact .unfinished hloose
  | @rejected error later honward =>
    obtain ⟨other, hother⟩ := hexplain error later
    simp only [bind_run, hother]
    exact .rejected honward

end EndsOnward

/-- Wherever a run ended, with a value or with an error, it ended in a session with a property. -/
def EndsIn (inv : Session → Prop) (result : EStateM.Result Failure Session α) : Prop :=
  (∀ a later, result = .ok a later → inv later) ∧
    ∀ error later, result = .error (.rejected error) later → inv later

theorem EndsOnward.endsIn {base : Session} {post : α → Session → Prop} {inv : Session → Prop}
    {result : EStateM.Result Failure Session α} (h : EndsOnward loose base post result)
    (honward : ∀ later, base.Onward later → inv later) : EndsIn inv result :=
  ⟨fun _ _ hrun => honward _ (h.of_ok hrun).1, fun _ _ hrun => honward _ (h.of_rejected hrun)⟩

theorem EndsIn.ok {a : α} {later : Session} {inv : Session → Prop} (h : inv later) :
    EndsIn inv (.ok a later) := by
  refine ⟨fun _ _ hrun => ?_, nofun⟩
  cases hrun
  exact h

theorem EndsIn.discard {p : Parser α} {s : Session} {inv : Session → Prop} (h : EndsIn inv (p s)) :
    EndsIn inv (discard p s) := by
  rw [discard_run]
  generalize p s = result at h ⊢
  cases result with
  | ok a last => exact .ok (h.1 a last rfl)
  | error failure last =>
    refine ⟨nofun, fun error _ hrun => ?_⟩
    cases hrun
    exact h.2 error last rfl

/-! ## Parsers -/

/-- From every tidy session that satisfies `pre`, the runs of a parser end onward of it. -/
def Leads (loose : Prop) (pre : Session → Prop) (post : α → Session → Prop) (p : Parser α) : Prop :=
  ∀ ⦃s : Session⦄, s.Tidy → pre s → EndsOnward loose s post (p s)

/-- From every tidy session, the runs of a parser end onward of it. -/
def LeadsOn (loose : Prop) (p : Parser α) : Prop :=
  Leads loose (fun _ => True) (fun _ _ => True) p

/-- From every tidy session, the runs of a parser end onward of that session with its first token
    read. -/
def LeadsFirst (loose : Prop) (post : α → Session → Prop) (p : Parser α) : Prop :=
  ∀ ⦃s : Session⦄, s.Tidy → EndsOnward loose (s.on .advance) post (p s)

section

variable {pre : Session → Prop} {post : α → Session → Prop} {post' : β → Session → Prop}
  {p : Parser α} {f : α → Parser β}

theorem Leads.mono {stronger : Session → Prop} {weaker : α → Session → Prop}
    (h : Leads loose pre post p) (hpre : ∀ s, stronger s → pre s)
    (hpost : ∀ a later, post a later → weaker a later) : Leads loose stronger weaker p :=
  fun _ hs hholds => (h hs (hpre _ hholds)).mono hpost

/-- What may start anywhere may start here. -/
theorem Leads.anywhere (h : Leads loose (fun _ => True) post p) : Leads loose pre post p :=
  fun _ hs _ => h hs trivial

theorem Leads.bind (h : Leads loose pre post p) (hf : ∀ a, Leads loose (post a) post' (f a)) :
    Leads loose pre post' (p >>= f) :=
  fun _ hs hpre => (h hs hpre).bind hs fun a _ hlater hpost => hf a hlater hpost

theorem Leads.pure {a : α} (h : ∀ s, pre s → post a s) : Leads loose pre post (pure a) :=
  fun s _ hpre => .ok .refl (h s hpre)

theorem Leads.reject {cause : Cause} {line : ℕ} :
    Leads loose pre post (Parser.reject cause line) :=
  fun _ _ _ => .rejected .refl

theorem Leads.reject_bind {cause : Cause} {line : ℕ} :
    Leads loose pre post' (Parser.reject cause line >>= f) :=
  fun _ _ _ => .rejected .refl

theorem Leads.ite {c : Prop} [Decidable c] {q : Parser α} (yes : c → Leads loose pre post p)
    (no : ¬ c → Leads loose pre post q) : Leads loose pre post (if c then p else q) := by
  split
  · exact yes ‹_›
  · exact no ‹_›

theorem Leads.on (h : Leads loose (fun _ => True) post p) : LeadsOn loose p :=
  h.mono (fun _ => id) fun _ _ _ => trivial

theorem LeadsFirst.leads (h : LeadsFirst loose post p) : Leads loose pre post p :=
  fun _ hs _ => (h hs).from_onward (.advance .refl)

theorem LeadsFirst.on (h : LeadsFirst loose post p) : LeadsOn loose p :=
  h.leads.on

theorem LeadsFirst.bind (h : LeadsFirst loose post p)
    (hf : ∀ a, Leads loose (post a) post' (f a)) : LeadsFirst loose post' (p >>= f) :=
  fun _ hs => (h hs).bind (Session.tidy_advance hs) fun a _ hlater hpost =>
    hf a hlater hpost

theorem LeadsFirst.map (h : LeadsFirst loose post p) (g : α → β) :
    LeadsFirst loose (fun _ _ => True) (g <$> p) := by
  rw [map_eq_pure_bind]
  exact h.bind fun _ => .pure fun _ _ => trivial

namespace LeadsOn

theorem leads (h : LeadsOn loose p) : Leads loose pre (fun _ _ => True) p :=
  Leads.anywhere h

theorem bind (h : LeadsOn loose p) (hf : ∀ a, LeadsOn loose (f a)) : LeadsOn loose (p >>= f) :=
  Leads.bind h hf

theorem pure (a : α) : LeadsOn loose (pure a) :=
  Leads.pure fun _ _ => trivial

theorem reject {cause : Cause} {line : ℕ} : LeadsOn loose (Parser.reject cause line : Parser α) :=
  Leads.reject

/-- What follows a rejection is never read. -/
theorem reject_bind {cause : Cause} {line : ℕ} :
    LeadsOn loose (Parser.reject cause line >>= f) :=
  Leads.reject_bind

theorem ite {c : Prop} [Decidable c] {q : Parser α} (yes : c → LeadsOn loose p)
    (no : ¬ c → LeadsOn loose q) : LeadsOn loose (if c then p else q) :=
  Leads.ite yes no

theorem map (h : LeadsOn loose p) (g : α → β) : LeadsOn loose (g <$> p) := by
  rw [map_eq_pure_bind]
  exact h.bind fun a => .pure (g a)

theorem discard (h : LeadsOn loose p) : LeadsOn loose (discard p) :=
  h.map fun _ => ()

end LeadsOn

end

/-! ## Looking -/

variable {pre : Session → Prop}

theorem Looks.leads {p : Parser α} (h : Looks p) : Leads loose pre (fun _ => pre) p := by
  intro s _ hpre
  obtain ⟨a, hrun⟩ := h s
  rw [hrun]
  exact .ok .refl hpre

theorem Looks.on {p : Parser α} (h : Looks p) : LeadsOn loose p :=
  h.leads.on

theorem looks_peek : Looks peek := fun _ => ⟨_, rfl⟩

theorem looks_currentLine : Looks currentLine := fun _ => ⟨_, rfl⟩

theorem looks_previous : Looks previous := fun _ => ⟨_, rfl⟩

theorem looks_previousLine : Looks previousLine := fun _ => ⟨_, rfl⟩

theorem looks_atEnd : Looks atEnd := fun _ => ⟨_, rfl⟩

theorem looks_atPunctuation (mark : String) : Looks (atPunctuation mark) := fun _ => ⟨_, rfl⟩

theorem looks_keywordFollows : Looks keywordFollows := fun _ => ⟨_, rfl⟩

/-! ## Moving -/

theorem move_leads : LeadsOn loose (move Cursor.advance) :=
  fun _ _ _ => .ok (.advance .refl) trivial

/-- A token that is handed out has been read, unless it is an end of input. -/
theorem advance_leadsFirst :
    LeadsFirst loose (fun token later => later.cursor.previous = token ∧
      (token.kind ≠ .eof → 0 < later.past)) advance :=
  fun _ hs => .ok .refl ⟨rfl, hs.past_pos_of_advance⟩

theorem advance_leads : LeadsOn loose advance := advance_leadsFirst.on

/-- What holds behind a token that passes a test, and in front of one that does not. -/
theorem take_leads_of {test : Token → Bool} {post : Bool → Session → Prop}
    (yes : ∀ s : Session, s.Tidy → pre s → test s.cursor.current = true → post true (s.on .advance))
    (no : ∀ s : Session, pre s → test s.cursor.current = false → post false s) :
    Leads loose pre post (take test) := by
  intro s hs hpre
  rw [take_run]
  split
  next htaken => exact .ok (.advance .refl) (yes s hs hpre htaken)
  next hleft => exact .ok .refl (no s hpre (by simpa using hleft))

theorem take_leads (test : Token → Bool) : LeadsOn loose (take test) :=
  take_leads_of (fun _ _ _ _ => trivial) fun _ _ _ => trivial

theorem take_leadsFirst {post : β → Session → Prop} {test : Token → Bool} {f : Bool → Parser β}
    (yes : Leads loose (fun _ => True) post (f true)) (no : LeadsFirst loose post (f false)) :
    LeadsFirst loose post (take test >>= f) := by
  intro s hs
  rw [bind_run, take_run]
  by_cases htest : test s.cursor.current = true
  · rw [if_pos htest]
    exact yes (Session.tidy_advance hs) trivial
  · rw [if_neg htest]
    exact no hs

theorem takePunctuation_leads (mark : String) : LeadsOn loose (takePunctuation mark) :=
  take_leads _

theorem takeKeyword_leads (word : String) : LeadsOn loose (takeKeyword word) :=
  take_leads _

theorem takeOperator_leads (symbol : String) : LeadsOn loose (takeOperator symbol) :=
  take_leads _

/-- Behind a token that was taken, no semicolon has been read last, unless it is the one taken. -/
theorem take_firm {test : Token → Bool}
    (htest : ∀ token, test token = true → token.kind ≠ .eof ∧ token.isPunctuation ";" = false) :
    Leads loose pre (fun taken s => if taken then s.Firm else pre s) (take test) :=
  take_leads_of (fun _ hs _ htaken => hs.firm_advance (htest _ htaken).1 (htest _ htaken).2)
    fun _ hpre _ => hpre

theorem takeOperator_firm (symbol : String) :
    Leads loose pre (fun taken s => if taken then s.Firm else pre s) (takeOperator symbol) :=
  take_firm fun token htaken => by
    simp [Token.isPunctuation, Token.hasForm, kind_of_isOperator htaken]

theorem takePunctuation_firm {mark : String} (hmark : mark ≠ ";") :
    Leads loose pre (fun taken s => if taken then s.Firm else pre s) (takePunctuation mark) :=
  take_firm fun _ htaken =>
    ⟨by simp [kind_of_isPunctuation htaken], isPunctuation_of_ne htaken hmark⟩

/-- A reader that is entered behind a token goes back over the token and reads it again. -/
theorem retreat_leads {p : Parser α} {post : α → Session → Prop} (h : LeadsFirst loose post p) :
    Leads loose (fun s => 0 < s.past) post (do retreat; p) := by
  intro s hs hpast
  rw [bind_run, retreat_run]
  have hends := h (hs.retreat hpast).1
  rwa [hs.advance_retreat hpast] at hends

/-- Wherever it is entered, going back does not show. -/
theorem retreat_leadsOn {p : Parser α} {post : α → Session → Prop} (h : LeadsFirst loose post p) :
    LeadsOn loose (do retreat; p) := by
  intro s hs _
  rcases Nat.eq_zero_or_pos s.past with hnone | hpast
  · rw [bind_run, retreat_run, Session.on_retreat_of_past hnone]
    exact h.on hs trivial
  · exact (retreat_leads h hs hpast).mono fun _ _ _ => trivial

/-! ## Noting -/

theorem record_leads (diagnostic : Diagnostic) (hpre : ∀ s t, s.cursor = t.cursor → pre s → pre t) :
    Leads loose pre (fun _ => pre) (record diagnostic) :=
  fun s _ hholds => .ok (.record .refl diagnostic) (hpre s _ rfl hholds)

theorem forM_leads {p : β → Parser Unit} (h : ∀ b, Leads loose pre (fun _ => pre) (p b))
    (items : List β) : Leads loose pre (fun _ => pre) (items.forM p) := by
  induction items with
  | nil => exact .pure fun _ => id
  | cons item rest ih =>
    simp only [List.forM]
    exact (h item).bind fun _ => ih

end Parser

end SinFrontend
