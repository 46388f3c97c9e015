import SinFrontend.Proofs.Trees.WellFormed

/-!
# Functions return on every execution

How a statement is executed, as far as returning goes: conditions may turn out either way, the body
of a loop is executed one or more times, a definition executes nothing, and a return ends the
execution of everything around it. An execution that goes on forever does not end at all.

* `Statement.Ends`, `Block.Ends`: the ways in which executions of statements and blocks end.
* `Block.not_finished_of_bodyReturns`: what passes the check for returns never falls off its end.
* `ends_iff_returned`: a body that passes it ends by returning and in no other way, and so does
  every function of a program.
-/

namespace SinFrontend

/-- How an execution ends: at the end of what is executed, or at a return. -/
inductive Exit where
  | finished | returned
  deriving DecidableEq

/-- Statements that are over in one step. A definition executes nothing. -/
def Form.isSimple : Form → Bool
  | returnValue _ | ifThen .. | ifElse .. | whileLoop .. | scopedBlock _ => false
  | _ => true

mutual

/-- `statement.Ends exit`: some execution of the statement ends in this way. -/
inductive Statement.Ends : Statement → Exit → Prop where
  | simple {form : Form} {line : ℕ} (simple : form.isSimple = true) :
    Statement.Ends ⟨form, line⟩ .finished
  | returnValue {value : Expression} {line : ℕ} :
    Statement.Ends ⟨.returnValue value, line⟩ .returned
  | skipped {condition : Expression} {branch : Statement} {line : ℕ} :
    Statement.Ends ⟨.ifThen condition branch, line⟩ .finished
  | taken {condition : Expression} {branch : Statement} {line : ℕ} {exit : Exit}
    (inBranch : branch.Ends exit) : Statement.Ends ⟨.ifThen condition branch, line⟩ exit
  | first {condition : Expression} {branch otherwise : Statement} {line : ℕ} {exit : Exit}
    (inBranch : branch.Ends exit) : Statement.Ends ⟨.ifElse condition branch otherwise, line⟩ exit
  | second {condition : Expression} {branch otherwise : Statement} {line : ℕ} {exit : Exit}
    (inOtherwise : otherwise.Ends exit) :
    Statement.Ends ⟨.ifElse condition branch otherwise, line⟩ exit
  /-- The last time that the body of a loop is executed. -/
  | last {condition : Expression} {branch : Statement} {line : ℕ} {exit : Exit}
    (inBranch : branch.Ends exit) : Statement.Ends ⟨.whileLoop condition branch, line⟩ exit
  | again {condition : Expression} {branch : Statement} {line : ℕ} {exit : Exit}
    (inBranch : branch.Ends .finished)
    (inRest : Statement.Ends ⟨.whileLoop condition branch, line⟩ exit) :
    Statement.Ends ⟨.whileLoop condition branch, line⟩ exit
  | scoped {block : Block} {line : ℕ} {exit : Exit}
    (inBlock : Statement.EndAll block.statements exit) :
    Statement.Ends ⟨.scopedBlock block, line⟩ exit

/-- `Statement.EndAll statements exit`: some execution of the statements, one after the other, ends
    in this way. -/
inductive Statement.EndAll : List Statement → Exit → Prop where
  | nil : Statement.EndAll [] .finished
  | stop {statement : Statement} {rest : List Statement} (inFirst : statement.Ends .returned) :
    Statement.EndAll (statement :: rest) .returned
  | next {statement : Statement} {rest : List Statement} {exit : Exit}
    (inFirst : statement.Ends .finished) (inRest : Statement.EndAll rest exit) :
    Statement.EndAll (statement :: rest) exit

end

/-- `block.Ends exit`: some execution of the block ends in this way. -/
def Block.Ends (block : Block) (exit : Exit) : Prop :=
  Statement.EndAll block.statements exit

/-! ## Ends of each form -/

section Forms

variable {condition : Expression} {branch otherwise : Statement} {line : ℕ} {exit : Exit}

theorem Statement.ends_returnValue {value : Expression} :
    Ends ⟨.returnValue value, line⟩ exit ↔ exit = .returned := by
  constructor
  · rintro (⟨⟨⟩⟩ | _)
    rfl
  · rintro rfl
    exact .returnValue

theorem Statement.ends_ifElse :
    Ends ⟨.ifElse condition branch otherwise, line⟩ exit ↔
      branch.Ends exit ∨ otherwise.Ends exit := by
  constructor
  · rintro (⟨⟨⟩⟩ | _ | _ | _ | inBranch | inOtherwise)
    · exact .inl inBranch
    · exact .inr inOtherwise
  · exact Or.rec .first .second

theorem Statement.ends_scopedBlock {block : Block} :
    Ends ⟨.scopedBlock block, line⟩ exit ↔ block.Ends exit := by
  constructor
  · rintro (⟨⟨⟩⟩ | _ | _ | _ | _ | _ | _ | _ | inBlock)
    exact inBlock
  · exact .scoped

/-- A loop that is over has executed its body to the end. -/
theorem Statement.finished_of_whileLoop
    (h : Ends ⟨.whileLoop condition branch, line⟩ .finished) : branch.Ends .finished := by
  rcases h with ⟨⟨⟩⟩ | _ | _ | _ | _ | _ | inBranch | ⟨inBranch, _⟩
  · exact inBranch
  · exact inBranch

end Forms

mutual

/-- Everything can be executed somehow. -/
theorem Statement.exists_ends : (statement : Statement) → ∃ exit, statement.Ends exit
  | ⟨.returnValue _, _⟩ => ⟨_, .returnValue⟩
  | ⟨.ifThen .., _⟩ => ⟨_, .skipped⟩
  | ⟨.ifElse _ branch _, _⟩ => branch.exists_ends.imp fun _ => .first
  | ⟨.whileLoop _ branch, _⟩ => branch.exists_ends.imp fun _ => .last
  | ⟨.scopedBlock ⟨statements, _⟩, _⟩ => (Statement.exists_endAll statements).imp fun _ => .scoped
  | ⟨.includeFile .., _⟩ | ⟨.declaration .., _⟩ | ⟨.allocation .., _⟩ | ⟨.assignment .., _⟩
  | ⟨.compoundAssignment .., _⟩ | ⟨.movement .., _⟩ | ⟨.functionDefinition .., _⟩
  | ⟨.structDefinition .., _⟩ | ⟨.call .., _⟩ | ⟨.construction .., _⟩ => ⟨_, .simple rfl⟩
termination_by structural statement => statement

theorem Statement.exists_endAll : (statements : List Statement) → ∃ exit, EndAll statements exit
  | [] => ⟨_, .nil⟩
  | statement :: rest =>
    match statement.exists_ends with
    | ⟨.returned, inFirst⟩ => ⟨_, .stop inFirst⟩
    | ⟨.finished, inFirst⟩ => (Statement.exists_endAll rest).imp fun _ => .next inFirst
termination_by structural statements => statements

end

/-! ## Executions that return -/

/-- Statements are not executed to their end if one of them is not. -/
theorem Statement.not_endAll_of_mem {statements : List Statement} {statement : Statement}
    (hmem : statement ∈ statements) (h : ¬statement.Ends .finished) :
    ¬EndAll statements .finished := by
  induction statements with
  | nil => cases hmem
  | cons first rest ih =>
    rintro (_ | _ | ⟨inFirst, inRest⟩)
    rcases List.mem_cons.mp hmem with rfl | hmem
    · exact h inFirst
    · exact ih hmem inRest

theorem Statement.not_finished_of_isReturn {statement : Statement}
    (h : statement.isReturn = true) : ¬statement.Ends .finished := by
  obtain ⟨form, line⟩ := statement
  cases form with
  | returnValue value => simp [ends_returnValue]
  | _ => cases h

/-- The marks of all blocks are right. -/
def Node.Marked : Node → Prop
  | .block b => b.Marked
  | _ => True

theorem Statement.not_finished_ifElse {condition : Expression} {branch otherwise : Statement}
    {line : ℕ} (hmarked : Throughout Node.Marked ⟨.ifElse condition branch otherwise, line⟩)
    (hreturns : (branch.returns && otherwise.returns) = true)
    (hbranch : branch.Throughout Node.Marked → branch.returns = true → ¬branch.Ends .finished)
    (hotherwise : otherwise.Throughout Node.Marked → otherwise.returns = true →
      ¬otherwise.Ends .finished) : ¬Ends ⟨.ifElse condition branch otherwise, line⟩ .finished := by
  rw [Bool.and_eq_true] at hreturns
  rw [ends_ifElse, not_or]
  exact ⟨hbranch (hmarked.parts _ (by simp [Node.parts, Form.parts])) hreturns.1,
    hotherwise (hmarked.parts _ (by simp [Node.parts, Form.parts])) hreturns.2⟩

/-- What the check says of branches, of blocks and of the last statement of a block is right. -/
theorem not_finished_of_returns :
    (∀ statement : Statement, statement.Throughout Node.Marked → statement.returns = true →
      ¬statement.Ends .finished) ∧
    (∀ block : Block, block.Throughout Node.Marked → block.returns = true →
      ¬block.Ends .finished) ∧
    ∀ statements : List Statement, (∀ statement ∈ statements, statement.Throughout Node.Marked) →
      Statement.lastReturns statements = true → ¬Statement.EndAll statements .finished := by
  -- the cases are those of the check, a statement and then a block and a list of statements
  apply Statement.returns.mutual_induct
  case case1 => simp [Statement.ends_returnValue]
  case case2 =>
    intro block line ih hmarked hreturns
    rw [Statement.ends_scopedBlock]
    exact ih (hmarked.parts _ List.mem_cons_self) hreturns
  case case3 =>
    intro condition branch otherwise line ihbranch ihotherwise hmarked hreturns
    exact Statement.not_finished_ifElse hmarked hreturns ihbranch ihotherwise
  case case4 =>
    intro statement _ _ _ _ hreturns
    simp_all [Statement.returns]
  case case5 =>
    intro statements hasReturn ih hmarked hreturns
    rw [Block.returns, Bool.or_eq_true] at hreturns
    rcases hreturns with hreturn | hlast
    · obtain ⟨statement, hmem, hreturn⟩ := hmarked.here.mp hreturn
      exact Statement.not_endAll_of_mem hmem (Statement.not_finished_of_isReturn hreturn)
    · exact ih (fun _ => hmarked.of_mem) hlast
  case case6 =>
    intro _ hlast
    cases hlast
  case case7 =>
    intro condition branch otherwise line ihbranch ihotherwise hmarked hlast
    have hchoice := hmarked _ (List.mem_singleton_self _)
    exact Statement.not_endAll_of_mem (List.mem_singleton_self _)
      (Statement.not_finished_ifElse hchoice hlast ihbranch ihotherwise)
  case case8 =>
    intro block line ih hmarked hlast
    refine Statement.not_endAll_of_mem (List.mem_singleton_self _) ?_
    rw [Statement.ends_scopedBlock]
    exact ih ((hmarked _ (List.mem_singleton_self _)).parts _ List.mem_cons_self) hlast
  case case9 =>
    intro condition branch line ih hmarked hlast
    refine Statement.not_endAll_of_mem (List.mem_singleton_self _) fun hends => ?_
    have hloop := hmarked _ (List.mem_singleton_self _)
    exact ih (hloop.parts _ (by simp [Node.parts, Form.parts])) hlast
      (Statement.finished_of_whileLoop hends)
  case case10 =>
    intro statement _ _ _ _ hlast
    simp_all [Statement.lastReturns]
  case case11 =>
    intro first rest _ _ _ hrest ih hmarked hlast
    rintro (_ | _ | ⟨_, inRest⟩)
    refine ih (List.forall_mem_cons.mp hmarked).2 ?_ inRest
    simp_all [Statement.lastReturns]

/-- A body that passes the check for returns never falls off its end. -/
theorem Block.not_finished_of_bodyReturns {body : Block} (hmarked : body.Throughout Node.Marked)
    (hreturns : body.bodyReturns = .ok true) : ¬body.Ends .finished := by
  unfold bodyReturns at hreturns
  split at hreturns
  next hreturn =>
    obtain ⟨statement, hmem, hreturn⟩ := hmarked.here.mp hreturn
    exact Statement.not_endAll_of_mem hmem (Statement.not_finished_of_isReturn hreturn)
  next =>
    split at hreturns
    · cases hreturns
    next hlast =>
      split at hreturns
      next hboth =>
        have hmem := List.mem_of_getLast? hlast
        refine Statement.not_endAll_of_mem hmem ?_
        exact Statement.not_finished_ifElse (hmarked.of_mem hmem) hboth
          (not_finished_of_returns.1 _) (not_finished_of_returns.1 _)
      · cases hreturns
    next condition branch line hlast =>
      have hmem := List.mem_of_getLast? hlast
      refine Statement.not_endAll_of_mem hmem fun hends => ?_
      have hbranch : branch.Throughout Node.Marked :=
        (hmarked.of_mem hmem).parts _ (by simp [Node.parts, Form.parts])
      exact not_finished_of_returns.1 _ hbranch (by simpa using hreturns)
        (Statement.finished_of_whileLoop hends)
    · cases hreturns

/-- A function returns however it is executed. -/
def Node.Returning : Node → Prop
  | .statement ⟨.functionDefinition _ _ _ body, _⟩ => ∀ exit, body.Ends exit ↔ exit = .returned
  | _ => True

theorem Block.ends_iff {body : Block} (hmarked : body.Throughout Node.Marked)
    (hreturns : body.bodyReturns = .ok true) (exit : Exit) : body.Ends exit ↔ exit = .returned := by
  have hnever := not_finished_of_bodyReturns hmarked hreturns
  obtain ⟨other, hother⟩ := Statement.exists_endAll body.statements
  cases exit with
  | finished => exact iff_of_false hnever nofun
  | returned =>
    cases other with
    | finished => exact absurd hother hnever
    | returned => exact iff_of_true hother rfl

theorem Node.marked_of_proper {node : Node} (h : node.Proper) : node.Marked := by
  cases node with
  | block b => exact h.marked
  | _ => trivial

/-- The functions of a proper tree return. -/
theorem Node.returning_of_proper {node : Node} (h : node.Everywhere Proper) : node.Returning := by
  unfold Returning
  split
  next id type params body line =>
    have hbody : body.Throughout Proper := h.parts _ (by simp [parts, Form.parts])
    exact Block.ends_iff (hbody.mono fun _ => marked_of_proper) h.here.2
  next => trivial

/-- The check for returns is sound. A block that passes it, all marks being right, ends by returning
    on every execution, and never at its end. So does every function of a program. -/
theorem ends_iff_returned :
    (∀ {body : Block}, body.Throughout Node.Marked → body.bodyReturns = .ok true →
      ∀ exit, body.Ends exit ↔ exit = .returned) ∧
    ∀ {s later : Session} {program : Block}, Parser.program s = .ok program later →
      program.Throughout Node.Returning := by
  refine ⟨Block.ends_iff, fun {s later program} hprogram => ?_⟩
  have hproper : program.Throughout Node.Proper :=
    (Parser.makes_program Session.kept_true Node.statementsInherit_proper trivial hprogram).1
  exact hproper.imp fun _ => Node.returning_of_proper

/-- A loop around a return passes the check, in a block and in the text of a function. -/
theorem ends_iff_returned_loop :
    (∃ body : Block,
      body.statements = [⟨.whileLoop .voidLiteral ⟨.returnValue .voidLiteral, 1⟩, 1⟩] ∧
      body.bodyReturns = .ok true ∧ ∀ exit, body.Ends exit ↔ exit = .returned) ∧
    ∃ session later program,
      Session.ofText "def int f() \x7b while (1) return 2; \x7d" = .ok session ∧
      Parser.program session = .ok program later ∧ program.size = 1 ∧
      program.Throughout Node.Returning := by
  constructor
  · have hvoid : Expression.voidLiteral.Throughout Node.Marked :=
      .intro trivial (List.forall_mem_singleton.mpr (.intro trivial nofun))
    have hreturn : Statement.Throughout Node.Marked ⟨.returnValue .voidLiteral, 1⟩ :=
      .intro trivial (List.forall_mem_singleton.mpr hvoid)
    have hloop : Statement.Throughout Node.Marked
        ⟨.whileLoop .voidLiteral ⟨.returnValue .voidLiteral, 1⟩, 1⟩ :=
      .intro trivial (List.forall_mem_cons.mpr ⟨hvoid, List.forall_mem_singleton.mpr hreturn⟩)
    have hbody : (Block.ofList
        [⟨.whileLoop .voidLiteral ⟨.returnValue .voidLiteral, 1⟩, 1⟩]).Throughout Node.Marked :=
      .intro (Block.marked_ofList _) (List.forall_mem_singleton.mpr hloop)
    exact ⟨_, rfl, rfl, ends_iff_returned.1 hbody rfl⟩
  · obtain ⟨session, later, program, hsession, hprogram, hsize⟩ :=
      Parser.exists_of_programOf? "def int f() \x7b while (1) return 2; \x7d"
        (·.size == 1) (by decide +kernel)
    exact ⟨session, later, program, hsession, hprogram, beq_iff_eq.mp hsize,
      ends_iff_returned.2 hprogram⟩

end SinFrontend
