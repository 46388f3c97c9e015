import Mathlib.Data.List.Basic
import SinFrontend.Proofs.Onward

/-!
# Semicolons before an `else`

A branch reads one semicolon behind it, so that of two semicolons the second one is read by an outer
branch. Only an `else` behind both can still be read, and by nothing but an outer `if`.

* `detachedElses`: how many `else` of a text stand directly behind two semicolons.
* `Session.Semicolons`: how many semicolons have been read last.
* `Session.Detached`: how many `else` behind two semicolons have been read.
* `Session.Spent`: what an open statement leaves ahead of the session.
-/

namespace SinFrontend

/-! ## Tokens -/

/-- A text begins with two semicolons and an `else`. -/
def beginsDetached : List Token → Bool
  | first :: second :: third :: _ =>
    first.isPunctuation ";" && second.isPunctuation ";" && third.isKeyword "else"
  | _ => false

/-- How many `else` of a text stand directly behind two semicolons. -/
def detachedElses : List Token → ℕ
  | [] => 0
  | token :: rest => (beginsDetached (token :: rest)).toNat + detachedElses rest

theorem beginsDetached_append {tokens : List Token} (h : beginsDetached tokens = true)
    (more : List Token) : beginsDetached (tokens ++ more) = true := by
  unfold beginsDetached at h
  split at h
  · exact h
  · cases h

theorem detachedElses_le_append (tokens more : List Token) :
    detachedElses tokens ≤ detachedElses (tokens ++ more) := by
  induction tokens with
  | nil => exact Nat.zero_le _
  | cons token rest ih =>
    exact Nat.add_le_add (Bool.toNat_le_toNat fun h => beginsDetached_append h more) ih

/-- An `else` behind two semicolons counts. -/
theorem detachedElses_lt {first second third : Token} (hfirst : first.isPunctuation ";" = true)
    (hsecond : second.isPunctuation ";" = true) (hthird : third.isKeyword "else" = true)
    (before : List Token) :
    detachedElses (before ++ [first, second]) <
      detachedElses (before ++ [first, second, third]) := by
  induction before with
  | nil => simp [detachedElses, beginsDetached, hfirst, hsecond, hthird]
  | cons token rest ih =>
    refine Nat.add_lt_add_of_le_of_lt (Bool.toNat_le_toNat fun h => ?_) ih
    simpa using beginsDetached_append h [third]

/-- A token at the end that is no `else` does not count. -/
theorem detachedElses_concat {token : Token} (h : token.isKeyword "else" = false)
    (tokens : List Token) : detachedElses (tokens ++ [token]) = detachedElses tokens := by
  induction tokens with
  | nil => rfl
  | cons first rest ih =>
    have hbegins :
        beginsDetached (first :: (rest ++ [token])) = beginsDetached (first :: rest) := by
      rcases rest with _ | ⟨second, _ | ⟨third, rest⟩⟩ <;> simp [beginsDetached, h]
    rw [List.cons_append, detachedElses, hbegins, ih, detachedElses]

/-- Neither a semicolon nor an `else` is a closing bracket. -/
theorem beginsDetached_congr {tokens others : List Token}
    (h : tokens.map Token.solid? = others.map Token.solid?) :
    beginsDetached tokens = beginsDetached others := by
  have hsemicolon {token other : Token} (h : Token.solid? token = Token.solid? other) :
      token.isPunctuation ";" = other.isPunctuation ";" :=
    hasForm_of_solid? h (show Token.Kind.punctuation ≠ .operator by decide) ";"
  have helse {token other : Token} (h : Token.solid? token = Token.solid? other) :
      token.isKeyword "else" = other.isKeyword "else" :=
    hasForm_of_solid? h (show Token.Kind.keyword ≠ .operator by decide) "else"
  rcases tokens with _ | ⟨first, _ | ⟨second, _ | ⟨third, rest⟩⟩⟩ <;>
    rcases others with _ | ⟨first', _ | ⟨second', _ | ⟨third', rest'⟩⟩⟩ <;>
      simp only [List.map_cons, List.map_nil, List.cons.injEq, reduceCtorEq, and_false] at h
  all_goals try rfl
  obtain ⟨hfirst, hsecond, hthird, -⟩ := h
  simp only [beginsDetached, hsemicolon hfirst, hsemicolon hsecond, helse hthird]

theorem detachedElses_congr {tokens others : List Token}
    (h : tokens.map Token.solid? = others.map Token.solid?) :
    detachedElses tokens = detachedElses others := by
  induction tokens generalizing others with
  | nil =>
    rw [List.map_nil, eq_comm, List.map_eq_nil_iff] at h
    rw [h]
  | cons token rest ih =>
    cases others with
    | nil => cases h
    | cons other others =>
      rw [detachedElses, detachedElses, beginsDetached_congr h, ih (List.cons.inj h).2]

namespace Session

variable {s base later : Session} {count : ℕ}

/-- The last tokens that were read are semicolons, as many as `count`. -/
def Semicolons (count : ℕ) (session : Session) : Prop :=
  ∃ marks rest, session.cursor.passed = marks ++ rest ∧ marks.length = count ∧
    ∀ mark ∈ marks, Token.isPunctuation mark ";" = true

theorem Tidy.semicolons_advance (hs : s.Tidy) (h : s.cursor.current.isPunctuation ";" = true)
    (hbefore : s.Semicolons count) : (s.on .advance).Semicolons (count + 1) := by
  obtain ⟨marks, rest, hpassed, hlength, hmarks⟩ := hbefore
  obtain ⟨next, ahead, -, hadvance⟩ :=
    hs.advance_eq (by simp [Parser.kind_of_isPunctuation h])
  refine ⟨s.cursor.current :: marks, rest, ?_, by simp [hlength], ?_⟩
  · simp [on, hadvance, hpassed]
  · exact List.forall_mem_cons.mpr ⟨h, hmarks⟩

theorem Tidy.semicolon_advance (hs : s.Tidy) (h : s.cursor.current.isPunctuation ";" = true) :
    (s.on .advance).Semicolons 1 :=
  hs.semicolons_advance h ⟨[], s.cursor.passed, rfl, rfl, nofun⟩

/-- Of the `else` that were read, at least `count` stand directly behind two semicolons. -/
def Detached (count : ℕ) (session : Session) : Prop :=
  count ≤ detachedElses session.cursor.passed.reverse

theorem Detached.advance (h : s.Detached count) : (s.on .advance).Detached count := by
  unfold Detached on Cursor.advance
  split
  · exact h
  · split
    · exact h
    · rw [List.reverse_cons]
      exact h.trans (detachedElses_le_append _ _)

/-- What has been read stays read. -/
theorem Detached.onward (h : base.Detached count) (honward : base.Onward later) :
    later.Detached count := by
  induction honward with
  | refl => exact h
  | advance _ ih => exact ih.advance
  | split _ _ _ _ _ ih => exact ih
  | record _ _ ih => exact ih

/-- What has been counted is in the text that was started on. -/
theorem Detached.le_of_onward {tokens : List Token} (h : later.Detached count)
    (honward : (Session.ofTokens tokens).Onward later) : count ≤ detachedElses tokens := by
  have htokens : count ≤ detachedElses (Session.ofTokens tokens).cursor.tokens := calc
    count ≤ detachedElses later.cursor.passed.reverse := h
    _ ≤ detachedElses later.cursor.tokens := detachedElses_le_append _ _
    _ = detachedElses (Session.ofTokens tokens).cursor.tokens :=
      detachedElses_congr honward.map_solid?
  rcases tokens_ofTokens_or tokens with heq | ⟨line, heq⟩
  · rwa [heq] at htokens
  · rwa [heq, detachedElses_concat rfl] at htokens

theorem Tidy.detached_else (hs : s.Tidy) (h : s.cursor.current.isKeyword "else" = true)
    (hmarks : s.Semicolons 2) (hcount : s.Detached count) :
    (s.on .advance).Detached (count + 1) := by
  obtain ⟨marks, rest, hpassed, hlength, hmarks⟩ := hmarks
  obtain ⟨second, first, rfl⟩ := List.length_eq_two.mp hlength
  obtain ⟨next, ahead, -, hadvance⟩ := hs.advance_eq (by simp [Parser.kind_of_isKeyword h])
  simp only [Detached, hpassed, List.reverse_append, List.reverse_cons, List.reverse_nil,
    List.nil_append, List.singleton_append] at hcount
  simp only [Detached, on, hadvance, hpassed, List.reverse_cons, List.reverse_append,
    List.reverse_nil, List.nil_append, List.singleton_append, List.append_assoc]
  exact hcount.trans_lt (detachedElses_lt (hmarks first (by simp)) (hmarks second (by simp)) h _)

/-- What an open statement leaves ahead: an `else` only behind two semicolons, and a semicolon only
    behind another one. -/
structure Spent (session : Session) : Prop where
  otherwise : session.cursor.current.isKeyword "else" = true → session.Semicolons 2
  semicolon : session.cursor.current.isPunctuation ";" = true → session.Semicolons 1

/-- A semicolon that a branch reads behind an open statement is the second one. -/
theorem Spent.advance (h : s.Spent) (hs : s.Tidy)
    (hmark : s.cursor.current.isPunctuation ";" = true) : (s.on .advance).Spent :=
  ⟨fun _ => hs.semicolons_advance hmark (h.semicolon hmark), fun _ => hs.semicolon_advance hmark⟩

end Session

end SinFrontend
