import SinFrontend.Proofs.Run

/-!
# What parsers make

A statement about the trees of a parser goes from the parts of a tree to the whole, one rule at a
time. What a rule makes of its parts also depends on the tokens that it reads, so the statement
comes with a property of sessions from which properties of their tokens follow.

* `Session.Kept`: a property of sessions that reading keeps, with what it tells of the tokens.
* `Session.kept_true`: nothing at all, which every session keeps.
* `Parser.Makes`: from sessions with the property, a parser makes only values of a given kind.
-/

namespace SinFrontend

/-- Reading keeps `inv`. Every token that is handed out satisfies `word`, and the text of every
    identifier that is demanded satisfies `name`. -/
structure Session.Kept (inv : Session → Prop) (word : Token → Prop) (name : String → Prop) :
    Prop where
  current {s : Session} (h : inv s) : word s.cursor.current
  previous {s : Session} (h : inv s) : word s.cursor.previous
  identifier {s : Session} (h : inv s) (kind : s.cursor.current.kind = .identifier) :
    name (s.on .advance).cursor.previous.text
  advance {s : Session} (h : inv s) : inv (s.on .advance)
  retreat {s : Session} (h : inv s) : inv (s.on .retreat)
  split {s : Session} (h : inv s) (closing : Parser.isClosingAngle s.cursor.current = true)
    (text : String) : inv (s.on (·.replaceText text))
  record {s : Session} (h : inv s) (diagnostics : List Diagnostic) : inv { s with diagnostics }
  start {s : Session} (h : inv s) (statementStart : ℕ) : inv { s with statementStart }

theorem Session.kept_true : Session.Kept (fun _ => True) (fun _ => True) (fun _ => True) where
  current _ := trivial
  previous _ := trivial
  identifier _ _ := trivial
  advance _ := trivial
  retreat _ := trivial
  split _ _ _ := trivial
  record _ _ := trivial
  start _ _ := trivial

namespace Parser

variable {α β : Type} {inv : Session → Prop} {word : Token → Prop} {name : String → Prop}

/-- From sessions that satisfy `inv`, `p` makes values that satisfy `good`, and leaves such
    sessions. -/
def Makes (inv : Session → Prop) (good : α → Prop) (p : Parser α) : Prop :=
  ∀ ⦃s a later⦄, inv s → p s = .ok a later → good a ∧ inv later

/-- Whatever `p` makes, it leaves sessions that satisfy `inv`. -/
abbrev Keeps (inv : Session → Prop) (p : Parser α) : Prop :=
  Makes inv (fun _ => True) p

namespace Makes

variable {good : α → Prop} {good' : β → Prop} {p q : Parser α} {f : α → Parser β}

theorem bind (h : Makes inv good p) (hf : ∀ a, good a → Makes inv good' (f a)) :
    Makes inv good' (p >>= f) := by
  intro s b later hs hrun
  obtain ⟨a, middle, hp, hrun⟩ := exists_of_bind hrun
  obtain ⟨hgood, hmiddle⟩ := h hs hp
  exact hf a hgood hmiddle hrun

theorem mono {weaker : α → Prop} (h : Makes inv good p) (hle : ∀ a, good a → weaker a) :
    Makes inv weaker p :=
  fun _ _ _ hs hrun => (h hs hrun).imp_left (hle _)

theorem pure {a : α} (h : good a) : Makes inv good (pure a) := by
  rintro s _ _ hs ⟨⟩
  exact ⟨h, hs⟩

theorem map {g : α → β} (h : Makes inv good p) (hg : ∀ a, good a → good' (g a)) :
    Makes inv good' (g <$> p) := by
  rw [map_eq_pure_bind]
  exact h.bind fun a ha => .pure (hg a ha)

/-- Where nothing is known of sessions, a step whose value does not matter can be passed over. -/
theorem skip (hf : ∀ a, Makes (fun _ => True) good' (f a)) :
    Makes (fun _ => True) good' (p >>= f) :=
  Makes.bind (fun _ _ _ _ _ => ⟨trivial, trivial⟩ : Keeps _ p) fun a _ => hf a

/-- A parser that always fails makes nothing at all. -/
theorem throw (failure : Failure) : Makes inv good (throw failure) :=
  fun _ _ _ _ hrun => nomatch hrun

theorem reject {cause : Cause} {line : ℕ} : Makes inv good (reject cause line) :=
  .throw _

theorem reject_bind {cause : Cause} {line : ℕ} :
    Makes inv good' (Parser.reject cause line >>= f) :=
  fun _ _ _ _ hrun => nomatch hrun

theorem ite {c : Prop} [Decidable c] (yes : c → Makes inv good p) (no : ¬c → Makes inv good q) :
    Makes inv good (if c then p else q) := by
  split
  · exact yes ‹_›
  · exact no ‹_›

theorem explaining {explain : CompileError → Parser CompileError} (h : Makes inv good p) :
    Makes inv good (explaining p explain) :=
  fun _ _ _ hs hrun => h hs (run_of_explaining hrun)

end Makes

/-! ## Looking and moving -/

/-- A parser that only looks leaves the session as it is. -/
theorem Keeps.look {p : Parser α} (h : ∀ s, ∃ a, p s = .ok a s) : Keeps inv p := by
  intro s a later hs hrun
  obtain ⟨b, hlook⟩ := h s
  rw [hlook] at hrun
  cases hrun
  exact ⟨trivial, hs⟩

theorem Keeps.peek : Keeps inv peek := .look fun _ => ⟨_, rfl⟩

theorem Keeps.currentLine : Keeps inv currentLine := .look fun _ => ⟨_, rfl⟩

theorem Keeps.previousLine : Keeps inv previousLine := .look fun _ => ⟨_, rfl⟩

theorem Keeps.atEnd : Keeps inv atEnd := .look fun _ => ⟨_, rfl⟩

theorem Keeps.atPunctuation (mark : String) : Keeps inv (atPunctuation mark) :=
  .look fun _ => ⟨_, rfl⟩

theorem Keeps.keywordFollows : Keeps inv keywordFollows := .look fun _ => ⟨_, rfl⟩

section

variable (kept : Session.Kept inv word name)

include kept

theorem makes_peek : Makes inv word peek := by
  rintro s _ _ hs ⟨⟩
  exact ⟨kept.current hs, hs⟩

theorem makes_previous : Makes inv word previous := by
  rintro s _ _ hs ⟨⟩
  exact ⟨kept.previous hs, hs⟩

theorem Keeps.move : Keeps inv (move Cursor.advance) := by
  rintro s _ _ hs ⟨⟩
  exact ⟨trivial, kept.advance hs⟩

theorem Keeps.retreat : Keeps inv retreat := by
  rintro s _ _ hs ⟨⟩
  exact ⟨trivial, kept.retreat hs⟩

theorem makes_advance : Makes inv word advance :=
  (Keeps.move kept).bind fun _ _ => makes_previous kept

/-- What was taken has passed the test. -/
theorem makes_take (test : Token → Bool) :
    Makes inv (fun taken => taken = true → ∃ token, word token ∧ test token = true)
      (take test) := by
  refine (makes_peek kept).bind fun token htoken => .ite (fun htest => ?_) fun _ => .pure nofun
  exact (Keeps.move kept).bind fun _ _ => .pure fun _ => ⟨token, htoken, htest⟩

theorem Keeps.take (test : Token → Bool) : Keeps inv (take test) :=
  (makes_take kept test).mono fun _ _ => trivial

theorem Keeps.skipSemicolons : Keeps inv skipSemicolons := by
  rintro s _ _ hs ⟨⟩
  refine ⟨trivial, ?_⟩
  suffices hall : ∀ (count : ℕ) {s : Session}, inv s → inv (s.on (·.advanceBy count)) from
    hall _ hs
  intro count
  induction count with
  | zero => exact id
  | succ count ih => exact fun hs => ih (kept.advance hs)

/-! ## Noting -/

theorem Keeps.record (diagnostic : Diagnostic) : Keeps inv (record diagnostic) := by
  rintro s _ _ hs ⟨⟩
  exact ⟨trivial, kept.record hs _⟩

omit kept in
theorem Keeps.forM {p : β → Parser Unit} (h : ∀ b, Keeps inv (p b)) (items : List β) :
    Keeps inv (items.forM p) := by
  induction items with
  | nil => exact .pure trivial
  | cons item rest ih =>
    simp only [List.forM]
    exact (h item).bind fun _ _ => ih

/-! ## Demanding -/

theorem Keeps.expectPunctuation (symbol context : String) :
    Keeps inv (expectPunctuation symbol context) := by
  refine (Keeps.take kept _).bind fun taken _ => .ite (fun _ => .pure trivial) fun _ => ?_
  exact Keeps.currentLine.bind fun _ _ => .reject

/-- A demanded identifier is the text of one. -/
theorem makes_identifier (cause : Cause) :
    Makes inv name (do
      if (← peek).kind == .identifier then
        return (← advance).text
      else
        reject cause (← currentLine)) := by
  intro s text later hs hrun
  by_cases hkind : s.cursor.current.kind = .identifier
  · obtain ⟨rfl, rfl⟩ : (s.on .advance).cursor.previous.text = text ∧ s.on .advance = later := by
      simpa [hkind, Session.on] using hrun
    exact ⟨kept.identifier hs hkind, kept.advance hs⟩
  · simp [hkind] at hrun

theorem makes_expectIdentifier (context : String) : Makes inv name (expectIdentifier context) :=
  makes_identifier kept _

theorem makes_structName : Makes inv name structName :=
  makes_identifier kept _

theorem Keeps.expectStatementEnd : Keeps inv expectStatementEnd := by
  refine (makes_peek kept).bind fun _ _ => .ite (fun _ => .pure trivial) fun _ => ?_
  exact Keeps.previousLine.bind fun _ _ => .reject

theorem Keeps.expectTypeStart (line : ℕ) : Keeps inv (expectTypeStart line) :=
  (makes_peek kept).bind fun _ _ => .ite (fun _ => .pure trivial) fun _ => .reject

end

end Parser

end SinFrontend
