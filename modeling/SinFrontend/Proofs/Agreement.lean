import SinFrontend.Proofs.Run

/-!
# Runs that agree

Two runs of parsers agree if they end the same way: with the same value or the same failure, in
sessions that correspond. Which sessions correspond is a parameter, a `Session.Frame`: equality is
one, and so is equality up to what was read or noted before.

* `Agree.bind`: agreement of runs that read one thing after another. What the first run is known to
  establish (`post`) is available for the second one.
* one lemma for each elementary parser, in the form in which rules use it: what follows it must
  agree from where it leaves the sessions.
-/

namespace SinFrontend

/-- A correspondence of sessions that looks the same from both sides and that every move keeps. -/
structure Session.Frame (corr : Session → Session → Prop) : Prop where
  ahead : ∀ {s t}, corr s t → s.cursor.ahead = t.cursor.ahead
  previous : ∀ {s t}, corr s t → 0 < s.past → s.cursor.previous = t.cursor.previous
  advance : ∀ {s t}, corr s t → corr (s.on .advance) (t.on .advance)
  retreat : ∀ {s t}, corr s t → 0 < s.past → corr (s.on .retreat) (t.on .retreat)
  split : ∀ {s t}, corr s t → Parser.isClosingAngle s.cursor.current = true →
    ∀ {c more}, s.cursor.current.text.toList = c :: more → more ≠ [] →
      corr (s.on (·.replaceText (String.ofList more))) (t.on (·.replaceText (String.ofList more)))
  record : ∀ {s t}, corr s t → ∀ diagnostic,
    corr { s with diagnostics := s.diagnostics ++ [diagnostic] }
      { t with diagnostics := t.diagnostics ++ [diagnostic] }

namespace Parser

variable {α β : Type} {corr : Session → Session → Prop}

/-- Two runs ended with the same value or the same failure, in sessions that correspond; a value
    and the session of the first run satisfy `post`. -/
inductive EndsAlike (corr : Session → Session → Prop) (post : α → Session → Prop) :
    EStateM.Result Failure Session α → EStateM.Result Failure Session α → Prop where
  | ok {a : α} {s t : Session} : corr s t → post a s → EndsAlike corr post (.ok a s) (.ok a t)
  | error {e : Failure} {s t : Session} : corr s t → EndsAlike corr post (.error e s) (.error e t)

/-- `p` run from `s` and `q` run from `t` end alike. -/
def Agree (corr : Session → Session → Prop) (post : α → Session → Prop) (p q : Parser α)
    (s t : Session) : Prop :=
  EndsAlike corr post (p s) (q t)

namespace Agree

variable {post : α → Session → Prop} {post' : β → Session → Prop} {p q : Parser α}
  {f g : α → Parser β} {s t : Session}

theorem mono {weaker : α → Session → Prop} (h : Agree corr post p q s t)
    (hpost : ∀ a s', post a s' → weaker a s') : Agree corr weaker p q s t := by
  unfold Agree at h ⊢
  generalize p s = x, q t = y at h ⊢
  cases h with
  | ok hc hp => exact .ok hc (hpost _ _ hp)
  | error hc => exact .error hc

theorem bind (h : Agree corr post p q s t)
    (hf : ∀ a s' t', corr s' t' → post a s' → Agree corr post' (f a) (g a) s' t') :
    Agree corr post' (p >>= f) (q >>= g) s t := by
  unfold Agree at h ⊢
  rw [bind_run, bind_run]
  generalize p s = x, q t = y at h ⊢
  cases h with
  | ok hc hp => exact hf _ _ _ hc hp
  | error hc => exact .error hc

theorem pure {a : α} (hc : corr s t) (hp : post a s) :
    Agree corr post (pure a) (pure a) s t :=
  .ok hc hp

theorem reject {cause : Cause} {line : ℕ} (hc : corr s t) :
    Agree corr post (reject cause line) (reject cause line) s t :=
  .error hc

/-- If the second run ends with a value, so does the first. -/
theorem exists_run {a : α} {t' : Session} (h : Agree corr post p q s t) (hrun : q t = .ok a t') :
    ∃ s', p s = .ok a s' ∧ corr s' t' := by
  unfold Agree at h
  rw [hrun] at h
  generalize p s = x at h ⊢
  cases h with
  | ok hc _ => exact ⟨_, rfl, hc⟩

/-- If the first run ends with a value, so does the second. -/
theorem exists_run_right {a : α} {s' : Session} (h : Agree corr post p q s t)
    (hrun : p s = .ok a s') : ∃ t', q t = .ok a t' ∧ corr s' t' := by
  unfold Agree at h
  rw [hrun] at h
  generalize q t = y at h ⊢
  cases h with
  | ok hc _ => exact ⟨_, rfl, hc⟩

end Agree

/-! ## Runs that lead on -/

/-- Sessions that correspond, the first of them tidy and over at least one token. -/
structure Abreast (corr : Session → Session → Prop) (s t : Session) : Prop where
  corr : corr s t
  tidy : s.Tidy
  ready : 0 < s.past + s.left

theorem Abreast.forward {n : ℕ} {s t s' t' : Session} (hab : Abreast corr s t)
    (hfwd : s.Forward n s') (hc : corr s' t') : Abreast corr s' t' :=
  ⟨hc, hfwd.tidy, by have := hfwd.total; have := hab.ready; omega⟩

theorem Abreast.past_pos {s t s' : Session} (hab : Abreast corr s t)
    (hfwd : s.Forward (min 1 s.left) s') : 0 < s'.past := by
  have := hab.ready
  have := hfwd.past_le
  omega

/-- Runs that agree and lead at least `n` tokens on. -/
def Proceed (corr : Session → Session → Prop) (n : ℕ) (p q : Parser α) (s t : Session) : Prop :=
  Agree corr (fun _ => s.Forward n) p q s t

/-- After runs that lead on, what follows starts from sessions further on. -/
theorem Proceed.bind {n k : ℕ} {p q : Parser α} {f g : α → Parser β} {s t : Session}
    (h : Proceed corr n p q s t) (hab : Abreast corr s t)
    (hf : ∀ a s' t', Abreast corr s' t' → s.Forward n s' → s'.left + n ≤ s.left →
      Proceed corr (k - n) (f a) (g a) s' t') :
    Proceed corr k (p >>= f) (q >>= g) s t :=
  Agree.bind h fun a s' t' hc hfwd =>
    (hf a s' t' (hab.forward hfwd hc) hfwd hfwd.near).mono fun _ _ hlater =>
      (hfwd.trans hlater).weaken (by omega)

/-- If what follows takes a token where there is one, so does the whole. -/
theorem Proceed.bind_min {p q : Parser α} {f g : α → Parser β} {s t : Session}
    (h : Proceed corr 0 p q s t) (hab : Abreast corr s t)
    (hf : ∀ a s' t', Abreast corr s' t' → s'.left ≤ s.left →
      Proceed corr (min 1 s'.left) (f a) (g a) s' t') :
    Proceed corr (min 1 s.left) (p >>= f) (q >>= g) s t :=
  Agree.bind h fun a s' t' hc hfwd =>
    (hf a s' t' (hab.forward hfwd hc) hfwd.near).mono fun _ _ hlater =>
      ⟨hlater.tidy, hlater.total.trans hfwd.total, by
        have := hfwd.near
        have := hlater.near
        omega⟩

theorem Proceed.weaken {m n : ℕ} {p q : Parser α} {s t : Session} (h : Proceed corr n p q s t)
    (hle : m ≤ n) : Proceed corr m p q s t :=
  h.mono fun _ _ hfwd => hfwd.weaken hle

/-- A run that leads on and ends with a value has led on. -/
theorem Proceed.forward {n : ℕ} {p q : Parser α} {s t later : Session} {a : α}
    (h : Proceed corr n p q s t) (hrun : p s = .ok a later) : s.Forward n later := by
  unfold Proceed Agree at h
  rw [hrun] at h
  generalize q t = y at h
  cases h with
  | ok _ hfwd => exact hfwd

theorem Proceed.pure {n : ℕ} {a : α} {s t : Session} (hab : Abreast corr s t) (hn : n = 0) :
    Proceed corr n (pure a) (pure a) s t :=
  Agree.pure hab.corr (by subst hn; exact .refl hab.tidy)

theorem Proceed.reject {n : ℕ} {cause : Cause} {line : ℕ} {s t : Session}
    (hab : Abreast corr s t) :
    Proceed corr n (Parser.reject cause line : Parser α) (Parser.reject cause line) s t :=
  Agree.reject hab.corr

theorem Proceed.reject_bind {n : ℕ} {cause : Cause} {line : ℕ} {f g : α → Parser β} {s t : Session}
    (hab : Abreast corr s t) :
    Proceed corr n (Parser.reject cause line >>= f) (Parser.reject cause line >>= g) s t :=
  EndsAlike.error hab.corr

theorem Proceed.ite {n : ℕ} {c : Prop} [Decidable c] {p q p' q' : Parser α} {s t : Session}
    (yes : c → Proceed corr n p q s t) (no : ¬c → Proceed corr n p' q' s t) :
    Proceed corr n (if c then p else p') (if c then q else q') s t := by
  split
  · exact yes ‹_›
  · exact no ‹_›

/-! ## Elementary parsers -/

section Elementary

variable {s t : Session} {k : ℕ} (frame : Session.Frame corr)

include frame

theorem Proceed.peek_bind {f g : Token → Parser β} (hab : Abreast corr s t)
    (h : Proceed corr k (f s.cursor.current) (g s.cursor.current) s t) :
    Proceed corr k (peek >>= f) (peek >>= g) s t := by
  have hcur : s.cursor.current = t.cursor.current := (List.cons.inj (frame.ahead hab.corr)).1
  change EndsAlike corr _ (f s.cursor.current s) (g t.cursor.current t)
  rw [← hcur]
  exact h

theorem Proceed.currentLine_bind {f g : ℕ → Parser β} (hab : Abreast corr s t)
    (h : Proceed corr k (f s.cursor.current.line) (g s.cursor.current.line) s t) :
    Proceed corr k (currentLine >>= f) (currentLine >>= g) s t :=
  Proceed.peek_bind (f := fun token => f token.line) (g := fun token => g token.line) frame hab h

theorem Proceed.atPunctuation_bind {f g : Bool → Parser β} {mark : String}
    (hab : Abreast corr s t)
    (h : Proceed corr k (f (s.cursor.current.isPunctuation mark))
      (g (s.cursor.current.isPunctuation mark)) s t) :
    Proceed corr k (atPunctuation mark >>= f) (atPunctuation mark >>= g) s t :=
  Proceed.peek_bind (f := fun token => f (token.isPunctuation mark))
    (g := fun token => g (token.isPunctuation mark)) frame hab h

theorem Proceed.atEnd_bind {f g : Bool → Parser β} (hab : Abreast corr s t)
    (h : Proceed corr k (f s.atEnd) (g s.atEnd) s t) :
    Proceed corr k (atEnd >>= f) (atEnd >>= g) s t :=
  Proceed.peek_bind (f := fun token => f (token.kind == .eof))
    (g := fun token => g (token.kind == .eof)) frame hab h

theorem Proceed.keywordFollows_bind {f g : Bool → Parser β} (hab : Abreast corr s t)
    (h : ∀ b, Proceed corr k (f b) (g b) s t) :
    Proceed corr k (keywordFollows >>= f) (keywordFollows >>= g) s t := by
  have hrest : s.cursor.rest = t.cursor.rest := (List.cons.inj (frame.ahead hab.corr)).2
  change EndsAlike corr _ (f (s.cursor.rest.head?.any (·.kind == .keyword)) s)
    (g (t.cursor.rest.head?.any (·.kind == .keyword)) t)
  rw [← hrest]
  exact h _

theorem Proceed.previous_bind {f g : Token → Parser β} (hab : Abreast corr s t)
    (hpast : 0 < s.past)
    (h : Proceed corr k (f s.cursor.previous) (g s.cursor.previous) s t) :
    Proceed corr k (previous >>= f) (previous >>= g) s t := by
  change EndsAlike corr _ (f s.cursor.previous s) (g t.cursor.previous t)
  rw [← frame.previous hab.corr hpast]
  exact h

theorem Proceed.previousLine_bind {f g : ℕ → Parser β} (hab : Abreast corr s t)
    (hpast : 0 < s.past)
    (h : Proceed corr k (f s.cursor.previous.line) (g s.cursor.previous.line) s t) :
    Proceed corr k (previousLine >>= f) (previousLine >>= g) s t :=
  Proceed.previous_bind (f := fun token => f token.line) (g := fun token => g token.line) frame hab
    hpast h

/-- Moving on, as far as there are tokens. -/
theorem Proceed.move_bind {k : ℕ} {f g : Unit → Parser β} (hab : Abreast corr s t)
    (h : ∀ s' t', Abreast corr s' t' → s.Forward (min 1 s.left) s' →
      s'.left + min 1 s.left ≤ s.left → Proceed corr (k - min 1 s.left) (f ()) (g ()) s' t') :
    Proceed corr k (move Cursor.advance >>= f) (move Cursor.advance >>= g) s t := by
  refine Proceed.bind (n := min 1 s.left) ?_ hab fun _ => h
  exact EndsAlike.ok (frame.advance hab.corr) (.advance_min hab.tidy)

/-- Reading the next token. At the end of input the token before it is handed out once more. -/
theorem Proceed.advance_bind {k : ℕ} {f g : Token → Parser β} (hab : Abreast corr s t)
    (h : ∀ token s' t', Abreast corr s' t' → token = s'.cursor.previous →
      s.Forward (min 1 s.left) s' → s'.left + min 1 s.left ≤ s.left →
      Proceed corr (k - min 1 s.left) (f token) (g token) s' t') :
    Proceed corr k (advance >>= f) (advance >>= g) s t := by
  refine Proceed.move_bind (f := fun _ => previous >>= f) (g := fun _ => previous >>= g) frame hab
    fun s' t' hab' hfwd hn => ?_
  exact Proceed.previous_bind frame hab' (hab.past_pos hfwd) (h _ _ _ hab' rfl hfwd hn)

theorem Proceed.advance_bind_atEnd {k : ℕ} {f g : Token → Parser β} (hab : Abreast corr s t)
    (hend : s.left = 0)
    (h : Proceed corr k (f s.cursor.previous) (g s.cursor.previous) s t) :
    Proceed corr k (advance >>= f) (advance >>= g) s t := by
  have hs : s.atEnd = true := Session.left_eq_zero_iff.mp hend
  have ht : t.atEnd = true := by
    simpa [Session.atEnd, Cursor.atEnd, (List.cons.inj (frame.ahead hab.corr)).1] using hs
  have hrun : ∀ (f : Token → Parser β) {s : Session}, s.atEnd = true →
      (advance >>= f) s = (previous >>= f) s := by
    intro f s hend
    change (previous >>= f) (s.on .advance) = _
    rw [Session.on_advance_of_atEnd hend]
  unfold Proceed Agree
  rw [hrun f hs, hrun g ht]
  exact Proceed.previous_bind frame hab (by have := hab.ready; omega) h

/-- Unreading a token that was read. What follows has one more token to read. -/
theorem Proceed.retreat_bind {k : ℕ} {f g : Unit → Parser β} (hab : Abreast corr s t)
    (hpast : 0 < s.past)
    (h : ∀ s' t', Abreast corr s' t' → s'.left = s.left + 1 →
      Proceed corr (k + 1) (f ()) (g ()) s' t') :
    Proceed corr k (retreat >>= f) (retreat >>= g) s t := by
  obtain ⟨htidy, hp, hl⟩ := hab.tidy.retreat hpast
  have hab' : Abreast corr (s.on .retreat) (t.on .retreat) :=
    ⟨frame.retreat hab.corr hpast, htidy, by have := hab.ready; omega⟩
  refine (h _ _ hab' hl).mono fun _ s' hfwd => ⟨hfwd.tidy, ?_, ?_⟩
  · have := hfwd.total
    omega
  · have := hfwd.near
    omega

/-- Reading the next token if it satisfies a test, which the end of input does not. -/
theorem Proceed.take_bind {k : ℕ} {f g : Bool → Parser β} {test : Token → Bool}
    (htest : ∀ token, test token = true → token.kind ≠ .eof) (hab : Abreast corr s t)
    (yes : ∀ s' t', Abreast corr s' t' → test s.cursor.current = true → s.Forward 1 s' →
      s'.left + 1 ≤ s.left → Proceed corr (k - 1) (f true) (g true) s' t')
    (no : test s.cursor.current = false → Proceed corr k (f false) (g false) s t) :
    Proceed corr k (take test >>= f) (take test >>= g) s t := by
  refine Proceed.peek_bind (f := fun token => (if test token = true then do
    move Cursor.advance; Pure.pure true else Pure.pure false) >>= f)
    (g := fun token => (if test token = true then do
    move Cursor.advance; Pure.pure true else Pure.pure false) >>= g) frame hab ?_
  cases h : test s.cursor.current with
  | true =>
    have hfwd : s.Forward 1 (s.on .advance) := .advance hab.tidy (htest _ h)
    have hab' := hab.forward hfwd (frame.advance hab.corr)
    exact (yes _ _ hab' h hfwd hfwd.near).mono fun _ _ hlater =>
      (hfwd.trans hlater).weaken (by omega)
  | false => exact no h

end Elementary

section Taking

variable {s t : Session} {k : ℕ} {f g : Bool → Parser β} (frame : Session.Frame corr)

include frame

theorem Proceed.takePunctuation_bind {mark : String} (hab : Abreast corr s t)
    (yes : ∀ s' t', Abreast corr s' t' → s.cursor.current.isPunctuation mark = true →
      s.Forward 1 s' → s'.left + 1 ≤ s.left → Proceed corr (k - 1) (f true) (g true) s' t')
    (no : s.cursor.current.isPunctuation mark = false →
      Proceed corr k (f false) (g false) s t) :
    Proceed corr k (takePunctuation mark >>= f) (takePunctuation mark >>= g) s t :=
  Proceed.take_bind frame (fun _ h => by simp [kind_of_isPunctuation h]) hab yes no

theorem Proceed.takeKeyword_bind {word : String} (hab : Abreast corr s t)
    (yes : ∀ s' t', Abreast corr s' t' → s.cursor.current.isKeyword word = true →
      s.Forward 1 s' → s'.left + 1 ≤ s.left → Proceed corr (k - 1) (f true) (g true) s' t')
    (no : s.cursor.current.isKeyword word = false → Proceed corr k (f false) (g false) s t) :
    Proceed corr k (takeKeyword word >>= f) (takeKeyword word >>= g) s t :=
  Proceed.take_bind frame (fun _ h => by simp [kind_of_isKeyword h]) hab yes no

theorem Proceed.takeOperator_bind {symbol : String} (hab : Abreast corr s t)
    (yes : ∀ s' t', Abreast corr s' t' → s.cursor.current.isOperator symbol = true →
      s.Forward 1 s' → s'.left + 1 ≤ s.left → Proceed corr (k - 1) (f true) (g true) s' t')
    (no : s.cursor.current.isOperator symbol = false → Proceed corr k (f false) (g false) s t) :
    Proceed corr k (takeOperator symbol >>= f) (takeOperator symbol >>= g) s t :=
  Proceed.take_bind frame (fun _ h => by simp [kind_of_isOperator h]) hab yes no

end Taking

end Parser

end SinFrontend
