import SinFrontend.Proofs.Onward

/-!
# Stricter parsers

A stricter parser rejects some of what another one reads. Where it does, the other one has come to
be `late`: it has read a value, but behind that value it can no longer succeed. So nothing is lost
in the end, and the two agree on what they read as a whole.

* `Parser.Tightens`: a parser does what another one does, or fails where the other one is late.
* `Parser.Matches`: a parser does what another one does, or both fail.
* `Parser.Tightens.bind_late`: what follows a late end has to be late as well, or to fail.
-/

namespace SinFrontend

namespace Parser

variable {α β : Type}

/-! ## Two parsers side by side -/

/-- A run and one of a stricter parser ended with the same value in the same session, or both
    failed, or only the stricter one did, where the other one came to be `late`. -/
inductive EndsTightened (base : Session) (late : α → Session → Prop) :
    EStateM.Result Failure Session α → EStateM.Result Failure Session α → Prop where
  | ok {a : α} {later : Session} (onward : base.Onward later) :
    EndsTightened base late (.ok a later) (.ok a later)
  | late {a : α} {later failed : Session} {failure : Failure} (onward : base.Onward later)
    (ended : late a later) : EndsTightened base late (.ok a later) (.error failure failed)
  | error {failure failure' : Failure} {failed failed' : Session} :
    EndsTightened base late (.error failure failed) (.error failure' failed')

/-- From tidy sessions, `q` does what `p` does, unless it fails where `p` comes to be `late`. -/
def Tightens (late : α → Session → Prop) (p q : Parser α) : Prop :=
  ∀ ⦃s : Session⦄, s.Tidy → EndsTightened s late (p s) (q s)

/-- From tidy sessions, `q` does what `p` does, or both fail. -/
abbrev Matches (p q : Parser α) : Prop :=
  Tightens (fun _ _ => False) p q

section

variable {base : Session} {late : α → Session → Prop} {late' : β → Session → Prop}
  {result result' : EStateM.Result Failure Session α} {p q : Parser α} {f g : α → Parser β}

theorem EndsTightened.of_endsOnward {post : α → Session → Prop}
    (h : EndsOnward True base post result) : EndsTightened base late result result := by
  cases h with
  | ok onward _ => exact .ok onward
  | rejected _ => exact .error
  | unfinished _ => exact .error

theorem EndsTightened.from_onward {s : Session} (h : EndsTightened s late result result')
    (hs : base.Onward s) : EndsTightened base late result result' := by
  cases h with
  | ok onward => exact .ok (hs.trans onward)
  | late onward hholds => exact .late (hs.trans onward) hholds
  | error => exact .error

/-- What comes behind a late end has to be late as well, or to fail. -/
theorem EndsTightened.bind {s : Session} (hbase : base.Tidy)
    (h : EndsTightened base late (p s) (q s)) (hf : ∀ a, Tightens late' (f a) (g a))
    (hlate : ∀ a, Leads True (late a) late' (f a)) :
    EndsTightened base late' ((p >>= f) s) ((q >>= g) s) := by
  rw [bind_run, bind_run]
  generalize p s = result, q s = result' at h ⊢
  cases h with
  | ok onward => exact (hf _ (onward.tidy hbase)).from_onward onward
  | error => exact .error
  | @late a later _ _ onward hholds =>
    have hends := hlate a (onward.tidy hbase) hholds
    dsimp only
    generalize f a later = next at hends ⊢
    cases hends with
    | ok onward' hholds' => exact .late (onward.trans onward') hholds'
    | rejected _ => exact .error
    | unfinished _ => exact .error

/-- A value is read by both parsers alike, if no late end is possible. -/
theorem EndsTightened.ok_iff {a : α} {later : Session}
    (h : EndsTightened base (fun _ _ => False) result result') :
    result = .ok a later ↔ result' = .ok a later := by
  cases h with
  | ok _ => exact Iff.rfl
  | late _ hfalse => exact hfalse.elim
  | error => exact ⟨nofun, nofun⟩

theorem Tightens.same (h : LeadsOn True p) : Tightens late p p :=
  fun _ hs => .of_endsOnward (h hs trivial)

theorem Tightens.bind_late (h : Tightens late p q) (hf : ∀ a, Tightens late' (f a) (g a))
    (hlate : ∀ a, Leads True (late a) late' (f a)) : Tightens late' (p >>= f) (q >>= g) :=
  fun _ hs => (h hs).bind hs hf hlate

theorem Tightens.bind (h : Matches p q) (hf : ∀ a, Tightens late' (f a) (g a)) :
    Tightens late' (p >>= f) (q >>= g) :=
  h.bind_late hf fun _ _ _ => False.elim

theorem Tightens.ite {c : Prop} [Decidable c] {p' q' : Parser α} (yes : c → Tightens late p q)
    (no : ¬c → Tightens late p' q') :
    Tightens late (if c then p else p') (if c then q else q') := by
  split
  · exact yes ‹_›
  · exact no ‹_›

theorem Tightens.reject {cause : Cause} {line : ℕ} :
    Tightens late (reject cause line) (Parser.reject cause line) :=
  .same .reject

theorem Tightens.reject_bind {cause : Cause} {line : ℕ} :
    Tightens late' (Parser.reject cause line >>= f) (Parser.reject cause line >>= g) :=
  fun _ _ => .error

end

end Parser

end SinFrontend
