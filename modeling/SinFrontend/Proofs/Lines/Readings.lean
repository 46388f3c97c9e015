import SinFrontend.Proofs.Lines.Renaming
import SinFrontend.Proofs.Run

/-!
# Readings on other lines

A parser that does not look at lines, or looks only at whether two of them are the same, does on
other lines what it does on the given ones, and what comes of it stands on the other lines. This
is put together from the parts of a parser: a line that one part hands to the next is a given line
in the one run and its new one in the other.

* `Parser.renamed`: the end of a run, on other lines.
* `Parser.Renames`: a parser does on other lines what another one does on the given ones.
* `Renames.bind`, `Renames.ite` and the like: how this is put together.
* `Goal.onLines`, `Parser.RenamesAll`: what comes of a goal on other lines, and readings of all
  goals that do there what they do on the given ones.
-/

namespace SinFrontend

variable {α β : Type} {ρ : ℕ → ℕ}

namespace Parser

/-! ## Runs -/

/-- The end of a run on other lines, where a value becomes what `r` makes of it. -/
def renamed (ρ : ℕ → ℕ) (r : α → α) :
    EStateM.Result Failure Session α → EStateM.Result Failure Session α
  | .ok a later => .ok (r a) (later.onLines ρ)
  | .error failure later => .error (failure.onLines ρ) (later.onLines ρ)

/-- On other lines, `q` does what `p` does on the given ones, and a value becomes what `r` makes of
    it. -/
def Renames (ρ : ℕ → ℕ) (r : α → α) (p q : Parser α) : Prop :=
  ∀ s : Session, q (s.onLines ρ) = renamed ρ r (p s)

namespace Renames

variable {r : α → α} {r' : β → β} {p q p' q' : Parser α} {f g : α → Parser β}

theorem pure (a : α) : Renames ρ r (pure a) (pure (r a)) :=
  fun _ => rfl

theorem reject (cause : Cause) (line : ℕ) :
    Renames ρ r (Parser.reject cause line) (Parser.reject cause (ρ line)) :=
  fun _ => rfl

theorem throw (failure : Failure) :
    Renames ρ r (MonadExcept.throw failure) (MonadExcept.throw (failure.onLines ρ)) :=
  fun _ => rfl

/-- The value of the first part, which has a line, goes on to the second part on its new line. -/
theorem bind_onLines (h : Renames ρ r p q) (hf : ∀ a, Renames ρ r' (f a) (g (r a))) :
    Renames ρ r' (p >>= f) (q >>= g) := by
  intro s
  rw [bind_run, bind_run, h s]
  cases p s with
  | ok a later => exact hf a later
  | error failure later => rfl

/-- The value of the first part has no line. -/
theorem bind (h : Renames ρ id p q) (hf : ∀ a, Renames ρ r' (f a) (g a)) :
    Renames ρ r' (p >>= f) (q >>= g) :=
  h.bind_onLines hf

/-- What follows a rejection is never read. -/
theorem reject_bind (cause : Cause) (line : ℕ) :
    Renames ρ r' (Parser.reject cause line >>= f) (Parser.reject cause (ρ line) >>= g) :=
  fun _ => rfl

theorem map_onLines {m m' : α → β} (h : Renames ρ r p q) (hm : ∀ a, m' (r a) = r' (m a)) :
    Renames ρ r' (m <$> p) (m' <$> q) := by
  rw [map_eq_pure_bind, map_eq_pure_bind]
  refine h.bind_onLines fun a => ?_
  rw [hm]
  exact .pure (m a)

theorem discard (h : Renames ρ r p q) : Renames ρ id (discard p) (discard q) :=
  h.map_onLines fun _ => rfl

theorem ite {c : Prop} [Decidable c] (yes : Renames ρ r p q) (no : Renames ρ r p' q') :
    Renames ρ r (if c then p else p') (if c then q else q') := by
  split
  · exact yes
  · exact no

/-- What an error is replaced by is found on other lines as well. -/
theorem explaining {explain explain' : CompileError → Parser CompileError} (h : Renames ρ r p q)
    (hexplain : ∀ error, Renames ρ (CompileError.onLines ρ) (explain error)
      (explain' (error.onLines ρ))) :
    Renames ρ r (explaining p explain) (explaining q explain') := by
  intro s
  rw [explaining_run, explaining_run, h s]
  cases p s with
  | ok a later => rfl
  | error failure later =>
    cases failure with
    | unfinished => rfl
    | rejected error =>
      have hthrow (other : CompileError) : Renames ρ r (MonadExcept.throw (Failure.rejected other))
          (MonadExcept.throw (Failure.rejected (other.onLines ρ))) := .throw (.rejected other)
      exact (hexplain error).bind_onLines hthrow later

theorem forM {ι : Type} {p q : ι → Parser Unit} (h : ∀ i, Renames ρ id (p i) (q i))
    (items : List ι) : Renames ρ id (items.forM p) (items.forM q) := by
  induction items with
  | nil => exact .pure ()
  | cons item rest ih =>
    simp only [List.forM]
    exact (h item).bind fun _ => ih

end Renames

/-! ## Looking -/

theorem peek_renames : Renames ρ (Token.onLines ρ) peek peek :=
  fun _ => rfl

theorem currentLine_renames : Renames ρ ρ currentLine currentLine :=
  fun _ => rfl

theorem previous_renames : Renames ρ (Token.onLines ρ) previous previous := by
  intro s
  simp [renamed]

theorem previousLine_renames : Renames ρ ρ previousLine previousLine := by
  intro s
  simp [renamed]

theorem atEnd_renames : Renames ρ id atEnd atEnd :=
  fun _ => rfl

theorem atPunctuation_renames (mark : String) :
    Renames ρ id (atPunctuation mark) (atPunctuation mark) :=
  fun _ => rfl

theorem keywordFollows_renames : Renames ρ id keywordFollows keywordFollows := by
  intro s
  rcases s with ⟨⟨passed, current, _ | ⟨next, rest⟩⟩, _, _⟩ <;> rfl

/-! ## Moving -/

theorem move_renames {step : Cursor → Cursor}
    (h : ∀ cursor : Cursor, step (cursor.onLines ρ) = (step cursor).onLines ρ) :
    Renames ρ id (move step) (move step) := by
  intro s
  rw [move_run, move_run, s.onLines_on ρ h]
  rfl

theorem moveAdvance_renames : Renames ρ id (move Cursor.advance) (move Cursor.advance) :=
  move_renames (Cursor.onLines_advance ρ)

theorem advance_renames : Renames ρ (Token.onLines ρ) advance advance :=
  moveAdvance_renames.bind fun _ => previous_renames

theorem retreat_renames : Renames ρ id retreat retreat :=
  move_renames (Cursor.onLines_retreat ρ)

theorem take_renames {test : Token → Bool}
    (h : ∀ token : Token, test (token.onLines ρ) = test token) :
    Renames ρ id (take test) (take test) := by
  unfold take
  refine peek_renames.bind_onLines fun next => ?_
  rw [h]
  exact .ite (moveAdvance_renames.bind fun _ => .pure _) (.pure _)

theorem takePunctuation_renames (mark : String) :
    Renames ρ id (takePunctuation mark) (takePunctuation mark) :=
  take_renames fun _ => rfl

theorem takeKeyword_renames (word : String) : Renames ρ id (takeKeyword word) (takeKeyword word) :=
  take_renames fun _ => rfl

theorem takeOperator_renames (symbol : String) :
    Renames ρ id (takeOperator symbol) (takeOperator symbol) :=
  take_renames fun _ => rfl

theorem skipSemicolons_renames : Renames ρ id skipSemicolons skipSemicolons :=
  move_renames (Cursor.onLines_skipWhile ρ · fun _ => rfl)

/-! ## Demanding and noting -/

theorem expectPunctuation_renames (symbol context : String) :
    Renames ρ id (expectPunctuation symbol context) (expectPunctuation symbol context) := by
  unfold expectPunctuation
  refine (takePunctuation_renames symbol).bind fun taken => .ite (.pure _) ?_
  exact currentLine_renames.bind_onLines fun line => .reject _ line

theorem expectIdentifier_renames (context : String) :
    Renames ρ id (expectIdentifier context) (expectIdentifier context) := by
  unfold expectIdentifier
  refine peek_renames.bind_onLines fun next => .ite ?_ ?_
  · exact advance_renames.bind_onLines fun token => .pure token.text
  · exact currentLine_renames.bind_onLines fun line => .reject _ line

theorem expectStatementEnd_renames : Renames ρ id expectStatementEnd expectStatementEnd := by
  unfold expectStatementEnd
  refine peek_renames.bind_onLines fun next => .ite (.pure _) ?_
  exact previousLine_renames.bind_onLines fun line => .reject _ line

theorem record_renames (diagnostic : Diagnostic) :
    Renames ρ id (record diagnostic) (record (diagnostic.onLines ρ)) := by
  intro s
  show EStateM.Result.ok () _ = EStateM.Result.ok () _
  simp [Session.onLines]

theorem note_renames (message : String) (line : ℕ) :
    Renames ρ id (note message line) (note message (ρ line)) :=
  record_renames (.note message line)

theorem warn_renames (message : String) (line code : ℕ) :
    Renames ρ id (warn message line code) (warn message (ρ line) code) :=
  record_renames (.warning message line code)

end Parser

/-! ## Goals -/

/-- What comes of a goal, on other lines. -/
def Goal.onLines (ρ : ℕ → ℕ) : {α : Type} → Goal α → α → α
  | _, .statement _ => Option.map (Statement.onLines ρ)
  | _, .statements => List.map (Prod.map (Option.map (Statement.onLines ρ)) ρ)
  | _, .parameters => List.map (Statement.onLines ρ)
  | _, .typeName | _, .members | _, .expression _ | _, .operations _ _ _ | _, .elements _
  | _, .initializers => id

/-- The reading of every goal does on other lines what it does on the given ones. -/
def Parser.RenamesAll (ρ : ℕ → ℕ) (parse : Descent) : Prop :=
  ∀ ⦃α : Type⦄ (goal : Goal α), Renames ρ (goal.onLines ρ) (parse goal) (parse goal)

end SinFrontend
