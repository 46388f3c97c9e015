import SinFrontend.Proofs.Trees.WellFormed

/-!
# Braces around statements

The check for returns treats a statement in braces as the block that it is. For a branch this makes
no difference, except for a loop: a loop that is a branch never returns, but it returns where it
ends a block. At the end of the body of a function no block is looked into.

* `Statement.Braced`: braces are put around branches, at any depth.
* `Follows`: what braces may do to an answer of the check.
* `Block.Braced.bodyReturns`: what they do to the answer for a body.
* `bodyReturns_braced_last`: what they do to it at the end of the body.
* `bodyReturns_of_braced`: both together.
-/

namespace SinFrontend

/-! ## Braces -/

/-- A statement in braces of its own. -/
def Statement.braced (statement : Statement) (line : ℕ) : Statement :=
  ⟨.scopedBlock (.ofList [statement]), line⟩

/-- Whether a statement is a loop whose branch returns. -/
def Statement.loopReturns : Statement → Bool
  | ⟨.whileLoop _ branch, _⟩ => branch.returns
  | _ => false

mutual

/-- `statement.Braced loops other`: `other` is `statement` with braces around any number of branches
    inside it, at any depth. Only if `loops` holds may one of them be a loop whose branch
    returns. -/
inductive Statement.Braced (loops : Prop) : Statement → Statement → Prop where
  | refl (statement : Statement) : Statement.Braced loops statement statement
  | ifThen {condition : Expression} {branch branch' : Statement} {line : ℕ}
    (inBranch : Statement.BranchBraced loops branch branch') :
    Statement.Braced loops ⟨.ifThen condition branch, line⟩ ⟨.ifThen condition branch', line⟩
  | ifElse {condition : Expression} {branch branch' otherwise otherwise' : Statement} {line : ℕ}
    (inBranch : Statement.BranchBraced loops branch branch')
    (inOtherwise : Statement.BranchBraced loops otherwise otherwise') :
    Statement.Braced loops ⟨.ifElse condition branch otherwise, line⟩
      ⟨.ifElse condition branch' otherwise', line⟩
  | whileLoop {condition : Expression} {branch branch' : Statement} {line : ℕ}
    (inBranch : Statement.BranchBraced loops branch branch') :
    Statement.Braced loops ⟨.whileLoop condition branch, line⟩
      ⟨.whileLoop condition branch', line⟩
  | scopedBlock {statements statements' : List Statement} {hasReturn : Bool} {line : ℕ}
    (inBlock : Statement.AllBraced loops statements statements') :
    Statement.Braced loops ⟨.scopedBlock ⟨statements, hasReturn⟩, line⟩
      ⟨.scopedBlock ⟨statements', hasReturn⟩, line⟩
  | functionDefinition {name : String} {returnType : DataType} {params : List Statement}
    {statements statements' : List Statement} {hasReturn : Bool} {line : ℕ}
    (inBody : Statement.AllBraced loops statements statements') :
    Statement.Braced loops
      ⟨.functionDefinition name returnType params ⟨statements, hasReturn⟩, line⟩
      ⟨.functionDefinition name returnType params ⟨statements', hasReturn⟩, line⟩
  | structDefinition {name : String} {statements statements' : List Statement} {hasReturn : Bool}
    {line : ℕ} (inBody : Statement.AllBraced loops statements statements') :
    Statement.Braced loops ⟨.structDefinition name ⟨statements, hasReturn⟩, line⟩
      ⟨.structDefinition name ⟨statements', hasReturn⟩, line⟩

/-- Braces inside a branch, and around it or not. -/
inductive Statement.BranchBraced (loops : Prop) : Statement → Statement → Prop where
  | inside {branch branch' : Statement} (inBranch : Statement.Braced loops branch branch') :
    Statement.BranchBraced loops branch branch'
  | around {branch branch' : Statement} (inBranch : Statement.Braced loops branch branch')
    (loop : branch.loopReturns = true → loops) (line : ℕ) :
    Statement.BranchBraced loops branch (branch'.braced line)

/-- Braces inside statements that stand one after the other. -/
inductive Statement.AllBraced (loops : Prop) : List Statement → List Statement → Prop where
  | nil : Statement.AllBraced loops [] []
  | cons {statement statement' : Statement} {rest rest' : List Statement}
    (inFirst : Statement.Braced loops statement statement')
    (inRest : Statement.AllBraced loops rest rest') :
    Statement.AllBraced loops (statement :: rest) (statement' :: rest')

end

/-- Braces inside the statements of a block. Its mark stays as it is. -/
structure Block.Braced (loops : Prop) (block block' : Block) : Prop where
  statements : Statement.AllBraced loops block.statements block'.statements
  hasReturn : block'.hasReturn = block.hasReturn

/-! ## Answers -/

/-- What returned before still returns after, and only if `loops` holds may more return. -/
structure Follows (loops : Prop) (before after : Bool) : Prop where
  kept : before = true → after = true
  gained : after = true → before = true ∨ loops

namespace Follows

variable {loops : Prop} {before after before' after' : Bool}

theorem refl : Follows loops before before :=
  ⟨id, .inl⟩

theorem and (h : Follows loops before after) (h' : Follows loops before' after') :
    Follows loops (before && before') (after && after') where
  kept hboth := by
    obtain ⟨hfirst, hsecond⟩ := Bool.and_eq_true_iff.mp hboth
    exact Bool.and_eq_true_iff.mpr ⟨h.kept hfirst, h'.kept hsecond⟩
  gained hboth := by
    obtain ⟨hfirst, hsecond⟩ := Bool.and_eq_true_iff.mp hboth
    rcases h.gained hfirst with hfirst | hloops
    · exact (h'.gained hsecond).imp_left fun hsecond => Bool.and_eq_true_iff.mpr ⟨hfirst, hsecond⟩
    · exact .inr hloops

theorem or (h : Follows loops before after) (h' : Follows loops before' after') :
    Follows loops (before || before') (after || after') where
  kept hone := Bool.or_eq_true_iff.mpr ((Bool.or_eq_true_iff.mp hone).imp h.kept h'.kept)
  gained hone := by
    rcases Bool.or_eq_true_iff.mp hone with hfirst | hsecond
    · exact (h.gained hfirst).imp_left fun hfirst => Bool.or_eq_true_iff.mpr (.inl hfirst)
    · exact (h'.gained hsecond).imp_left fun hsecond => Bool.or_eq_true_iff.mpr (.inr hsecond)

theorem eq (h : Follows loops before after) (hloops : ¬loops) : after = before :=
  Bool.eq_iff_iff.mpr ⟨fun hafter => (h.gained hafter).resolve_right hloops, h.kept⟩

end Follows

namespace Statement

variable {loops : Prop} {statement statement' : Statement}

/-- Braces make a loop return if its branch does. -/
theorem returns_braced (statement : Statement) (line : ℕ) :
    (statement.braced line).returns = (statement.returns || statement.loopReturns) := by
  obtain ⟨form, line⟩ := statement
  cases form <;> simp [braced, returns, loopReturns, Block.ofList, Block.push, Block.empty,
    Block.returns, lastReturns, isReturn]

theorem lastReturns_singleton (statement : Statement) : lastReturns [statement] =
    (!statement.isReturn && (statement.returns || statement.loopReturns)) := by
  obtain ⟨form, line⟩ := statement
  cases form <;> simp [returns, loopReturns, lastReturns, isReturn]

theorem lastReturns_cons_cons (first second : Statement) (rest : List Statement) :
    lastReturns (first :: second :: rest) = lastReturns (second :: rest) := by
  obtain ⟨form, line⟩ := first
  cases form <;> rfl

theorem Braced.isReturn_eq (h : statement.Braced loops statement') :
    statement'.isReturn = statement.isReturn := by
  cases h <;> rfl

-- by recursion on how the braces are put; a statement needs both answers, since braces around it
-- turn what it answers as a loop into what it answers as a branch
mutual

theorem Braced.follows {statement statement' : Statement} :
    statement.Braced loops statement' → Follows loops statement.returns statement'.returns ∧
      Follows loops statement.loopReturns statement'.loopReturns
  | .refl _ => ⟨.refl, .refl⟩
  | .ifThen _ => ⟨.refl, .refl⟩
  | .ifElse inBranch inOtherwise => ⟨inBranch.follows.and inOtherwise.follows, .refl⟩
  | .whileLoop inBranch => ⟨.refl, inBranch.follows⟩
  | .scopedBlock inBlock => ⟨.or .refl inBlock.follows, .refl⟩
  | .functionDefinition _ => ⟨.refl, .refl⟩
  | .structDefinition _ => ⟨.refl, .refl⟩

theorem BranchBraced.follows {branch branch' : Statement} :
    branch.BranchBraced loops branch' → Follows loops branch.returns branch'.returns
  | .inside inBranch => inBranch.follows.1
  | .around inBranch loop line => by
    obtain ⟨hreturns, hloop⟩ := inBranch.follows
    rw [returns_braced]
    refine ⟨fun hbefore => by rw [hreturns.kept hbefore, Bool.true_or], fun hafter => ?_⟩
    rcases Bool.or_eq_true_iff.mp hafter with hafter | hafter
    · exact hreturns.gained hafter
    · exact .inr ((hloop.gained hafter).elim loop id)

theorem AllBraced.follows {statements statements' : List Statement} :
    AllBraced loops statements statements' →
      Follows loops (lastReturns statements) (lastReturns statements')
  | .nil => .refl
  | .cons inFirst .nil => by
    rw [lastReturns_singleton, lastReturns_singleton, inFirst.isReturn_eq]
    exact .and .refl (inFirst.follows.1.or inFirst.follows.2)
  | .cons _ (.cons inSecond inRest) => by
    rw [lastReturns_cons_cons, lastReturns_cons_cons]
    exact AllBraced.follows (.cons inSecond inRest)

end

/-- Braces leave the last statement in its place. -/
theorem AllBraced.getLast? {statements statements' : List Statement}
    (h : AllBraced loops statements statements') :
    Option.Rel (Braced loops) statements.getLast? statements'.getLast? := by
  induction statements generalizing statements' with
  | nil =>
    cases h
    exact .none
  | cons first rest ih =>
    cases h with
    | cons inFirst inRest =>
      cases inRest with
      | nil => exact .some inFirst
      | cons inSecond inRest =>
        rw [List.getLast?_cons_cons, List.getLast?_cons_cons]
        exact ih (.cons inSecond inRest)

end Statement

/-! ## Bodies -/

namespace Block

variable {loops : Prop} {body body' : Block}

/-- Braces around branches keep a body returning, and unless they stand around loops, the answer for
    the body stays what it was. -/
theorem Braced.bodyReturns (h : body.Braced loops body') :
    (body.bodyReturns = .ok true → body'.bodyReturns = .ok true) ∧
      (¬loops → body'.bodyReturns = body.bodyReturns) := by
  have hlast := h.statements.getLast?
  unfold Block.bodyReturns
  rw [h.hasReturn]
  generalize body.statements.getLast? = last at hlast
  generalize body'.statements.getLast? = last' at hlast
  split
  · exact ⟨id, fun _ => rfl⟩
  cases hlast with
  | none => exact ⟨id, fun _ => rfl⟩
  | some inLast =>
    cases inLast with
    | ifElse inBranch inOtherwise =>
      have hfollows := inBranch.follows.and inOtherwise.follows
      refine ⟨fun hreturns => ?_, fun hloops => by simp only [hfollows.eq hloops]⟩
      dsimp only at hreturns ⊢
      split at hreturns
      next hboth => rw [if_pos (hfollows.kept hboth)]
      next => cases hreturns
    | whileLoop inBranch =>
      have hfollows := inBranch.follows
      exact ⟨fun hreturns => congrArg _ (hfollows.kept (Except.ok.inj hreturns)),
        fun hloops => congrArg _ (hfollows.eq hloops)⟩
    | _ => exact ⟨id, fun _ => rfl⟩

/-- No block is looked into at the end of a body. -/
theorem bodyReturns_braced_last (statements : List Statement) (last : Statement) (line : ℕ) :
    (ofList (statements ++ [last.braced line])).bodyReturns =
      .ok (statements.any Statement.isReturn) := by
  have hnone : [last.braced line].any Statement.isReturn = false := rfl
  unfold Block.bodyReturns
  rw [hasReturn_ofList, statements_ofList, List.getLast?_concat, List.any_append, hnone,
    Bool.or_false]
  cases statements.any Statement.isReturn <;> rfl

end Block

/-- What braces do to the check for returns. Around branches, at any depth and in any number of
    places, they keep an accepted body accepted; and unless a loop whose branch returns is one of
    these branches, they keep the answer for the body whatever it is, with the line of an error.
    Around the last statement of a body, they leave it accepted if and only if another statement of
    the body is a return; then it was accepted without them as well. -/
theorem bodyReturns_of_braced :
    (∀ {body body' : Block}, body.Braced True body' → body.bodyReturns = .ok true →
      body'.bodyReturns = .ok true) ∧
    (∀ {body body' : Block}, body.Braced False body' → body'.bodyReturns = body.bodyReturns) ∧
    ∀ (statements : List Statement) (last : Statement) (line : ℕ),
      (Block.ofList (statements ++ [last.braced line])).bodyReturns =
        .ok (statements.any Statement.isReturn) ∧
      (statements.any Statement.isReturn = true →
        (Block.ofList (statements ++ [last])).bodyReturns = .ok true) := by
  refine ⟨fun h => h.bodyReturns.1, fun h => h.bodyReturns.2 id, fun statements last line => ?_⟩
  refine ⟨Block.bodyReturns_braced_last statements last line, fun hreturn => ?_⟩
  rw [Block.bodyReturns, Block.hasReturn_ofList, List.any_append, hreturn, Bool.true_or, if_pos rfl]

/-- Braces around a loop in front of a return, around a return that is a branch, and around a loop
    behind a return. -/
theorem bodyReturns_of_braced_return :
    ∃ stop loop : Statement,
      stop = ⟨.returnValue .voidLiteral, 1⟩ ∧ loop = ⟨.whileLoop .voidLiteral stop, 1⟩ ∧
      (Block.ofList [⟨.ifThen .voidLiteral loop, 1⟩, stop]).Braced True
        (.ofList [⟨.ifThen .voidLiteral (loop.braced 1), 1⟩, stop]) ∧
      (Block.ofList [⟨.ifThen .voidLiteral (loop.braced 1), 1⟩, stop]).bodyReturns = .ok true ∧
      (Block.ofList [⟨.ifElse .voidLiteral stop loop, 1⟩]).Braced False
        (.ofList [⟨.ifElse .voidLiteral (stop.braced 1) loop, 1⟩]) ∧
      (Block.ofList [⟨.ifElse .voidLiteral (stop.braced 1) loop, 1⟩]).bodyReturns =
        (Block.ofList [⟨.ifElse .voidLiteral stop loop, 1⟩]).bodyReturns ∧
      (Block.ofList ([stop] ++ [loop])).bodyReturns = .ok true := by
  obtain ⟨hkept, hsame, hlast⟩ := bodyReturns_of_braced
  obtain ⟨stop, hstop⟩ : ∃ stop : Statement, stop = ⟨.returnValue .voidLiteral, 1⟩ := ⟨_, rfl⟩
  obtain ⟨loop, hloop⟩ : ∃ loop : Statement, loop = ⟨.whileLoop .voidLiteral stop, 1⟩ := ⟨_, rfl⟩
  have hreturn : [stop].any Statement.isReturn = true := by simp [hstop, Statement.isReturn]
  have hplain : stop.loopReturns = true → False := by simp [hstop, Statement.loopReturns]
  have haround : (Block.ofList [⟨.ifThen .voidLiteral loop, 1⟩, stop]).Braced True
      (.ofList [⟨.ifThen .voidLiteral (loop.braced 1), 1⟩, stop]) :=
    ⟨.cons (.ifThen (.around (.refl _) (fun _ => trivial) 1)) (.cons (.refl _) .nil), rfl⟩
  have hinside : (Block.ofList [⟨.ifElse .voidLiteral stop loop, 1⟩]).Braced False
      (.ofList [⟨.ifElse .voidLiteral (stop.braced 1) loop, 1⟩]) :=
    ⟨.cons (.ifElse (.around (.refl _) hplain 1) (.inside (.refl _))) .nil, rfl⟩
  have hbefore : (Block.ofList [⟨.ifThen .voidLiteral loop, 1⟩, stop]).bodyReturns = .ok true := by
    rw [hstop]
    rfl
  exact ⟨stop, loop, hstop, hloop, haround, hkept haround hbefore, hinside, hsame hinside,
    (hlast _ _ 1).2 hreturn⟩

/-- Braces around the last statement of a body, and around a loop that is a branch, turn the check
    into its opposite, in trees and in the texts of functions. -/
theorem exists_braces_turn_check :
    (∃ stop loop : Statement,
      (Block.ofList [stop]).bodyReturns = .ok true ∧
      (Block.ofList [stop.braced 1]).bodyReturns = .ok false ∧
      (Block.ofList [⟨.ifElse .voidLiteral loop stop, 1⟩]).bodyReturns = .error ⟨.noReturn, 1⟩ ∧
      (Block.ofList [⟨.ifElse .voidLiteral (loop.braced 1) stop, 1⟩]).bodyReturns = .ok true) ∧
    (Parser.programOf? "def int f() \x7b return 1; \x7d").isSome = true ∧
    (Parser.programOf? "def int f() \x7b \x7b return 1; \x7d \x7d").isSome = false ∧
    (Parser.programOf?
      "def int f() \x7b if (a) while (b) return 1; else return 2; \x7d").isSome = false ∧
    (Parser.programOf?
      "def int f() \x7b if (a) \x7b while (b) return 1; \x7d else return 2; \x7d").isSome =
        true := by
  refine ⟨⟨⟨.returnValue .voidLiteral, 1⟩,
    ⟨.whileLoop .voidLiteral ⟨.returnValue .voidLiteral, 1⟩, 1⟩, rfl, rfl, rfl, rfl⟩, ?_⟩
  decide +kernel

end SinFrontend
