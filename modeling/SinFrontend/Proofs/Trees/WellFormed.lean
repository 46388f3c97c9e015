import SinFrontend.Proofs.Trees.Statements

/-!
# Programs are well-formed

What a program is read as satisfies, at every depth, what later passes take for granted.

* `Node.Proper`: what is demanded of a statement or a block, beside what its parts satisfy.
* `Block.marked_ofList`: a block that is made by pushing statements has the right mark.
* `Node.statementsInherit_proper`: statements that are read are proper if their parts are.
* `proper_of_program`: so are all statements and blocks of a program.
-/

namespace SinFrontend

/-! ## Marks of blocks -/

/-- The mark of a block tells whether a return stands directly in it. -/
def Block.Marked (block : Block) : Prop :=
  block.hasReturn = true ↔ ∃ statement ∈ block.statements, statement.isReturn = true

theorem Block.marked_ofList (statements : List Statement) : (Block.ofList statements).Marked := by
  induction statements using List.reverseRecOn with
  | nil => simp [Marked, ofList, empty]
  | append_singleton statements statement ih =>
    simp only [Marked, ofList_concat, push, Bool.or_eq_true, List.mem_append, List.mem_singleton,
      or_and_right, exists_or, exists_eq_left]
    exact or_congr ih Iff.rfl

theorem Block.hasReturn_ofList (statements : List Statement) :
    (ofList statements).hasReturn = statements.any Statement.isReturn := by
  have hmarked := marked_ofList statements
  rw [Marked, statements_ofList, ← List.any_eq_true] at hmarked
  exact Bool.eq_iff_iff.mpr hmarked

/-! ## Proper nodes -/

/-- The operators of compound assignments. -/
def Operator.assignable : List Operator :=
  [.plus, .minus, .mult, .div, .modulo, .bitAnd, .bitOr, .bitXor, .leftShift, .rightShift]

theorem Operator.mem_assignable {op base : Operator} (h : op.compoundBase? = some base) :
    base ∈ assignable := by
  cases op <;> cases h <;> decide

/-- What is demanded of a form. Parameters are declarations, and only they are declared with a
    value; a function returns; an allocation keeps the policy of its type; a compound assignment
    stores what its operator makes of the old value; a call is one; and a construction that stands
    as a statement names no type. -/
def Form.Proper : Form → Prop
  | .declaration _ _ _ _ _ params => ∀ param ∈ params, param.isDeclaration = true
  | .functionDefinition _ _ params body =>
    (∀ param ∈ params, param.isDeclaration = true) ∧ body.bodyReturns = .ok true
  | .allocation type _ _ => type.isValid = true
  | .compoundAssignment target value op =>
    op ∈ Operator.assignable ∧ ∃ operand constant, value = .binary op target operand constant
  | .call expression => expression.isCall = true
  | .construction _ value => ∃ initializers hasDefault constant,
    value = .construction none initializers hasDefault constant
  | .ifThen _ branch | .whileLoop _ branch => branch.isInitialized = false
  | .ifElse _ branch otherwise => branch.isInitialized = false ∧ otherwise.isInitialized = false
  | _ => True

/-- What is demanded of a block: its mark is right, and no value is declared in it. -/
structure Block.Proper (block : Block) : Prop where
  marked : block.Marked
  bare : ∀ statement ∈ block.statements, statement.isInitialized = false

namespace Node

/-- What is demanded of the statements and the blocks of a tree. -/
def Proper : Node → Prop
  | .statement s => s.form.Proper
  | .block b => b.Proper
  | .type _ | .expression _ => True

variable {word : Token → Prop} {name : String → Prop}

/-- Statements that are read are proper. -/
theorem statementsInherit_proper : StatementsInherit word name Proper where
  toExpressionsInherit := expressionsInherit_of_forall (fun _ => trivial) fun _ => trivial
  block inStatements := by
    refine ⟨Block.marked_ofList _, fun statement hmem => ?_⟩
    rw [Block.statements_ofList] at hmem
    exact (inStatements statement hmem).2
  includeFile _ _ := trivial
  structType _ := trivial
  declaration _ _ _ inParams _ _ _ := fun param hmem => (inParams param hmem).2
  allocation _ valid _ _ _ := valid
  assignment _ _ _ := trivial
  compoundAssignment compound _ _ _ := ⟨Operator.mem_assignable compound, _, _, rfl⟩
  movement _ _ _ := trivial
  returnValue _ _ := trivial
  ifThen _ inBranch _ := inBranch.2
  ifElse _ inBranch inOtherwise _ := ⟨inBranch.2, inOtherwise.2⟩
  whileLoop _ inBranch _ := inBranch.2
  functionDefinition _ _ inParams _ returns _ :=
    ⟨fun param hmem => (inParams param hmem).2, returns⟩
  structDefinition _ _ _ := trivial
  scopedBlock _ _ := trivial
  callStatement _ isCall _ := isCall
  constructStatement _ _ _ := ⟨_, _, _, rfl⟩

end Node

/-! ## Programs -/

/-- All statements and blocks of a program are proper, whether it is read at once or compiled, from
    whatever tokens. -/
theorem proper_of_program :
    (∀ {s later : Session} {program : Block}, Parser.program s = .ok program later →
      program.Throughout Node.Proper) ∧
    ∀ {options : Compilation.Options} {output : Compilation.Output},
      (∀ {s : Session}, Compilation.ofSession options s = .ok output →
        output.program.Throughout Node.Proper) ∧
      ∀ {text : String}, Compilation.ofText options text = .ok output →
        output.program.Throughout Node.Proper := by
  have hsession {options : Compilation.Options} {output : Compilation.Output} {s : Session}
      (hrun : Compilation.ofSession options s = .ok output) :
      output.program.Throughout Node.Proper :=
    Compilation.throughout_program Session.kept_true Node.statementsInherit_proper
      (fun _ _ => trivial) trivial hrun
  refine ⟨fun hrun => ?_, hsession, fun hrun => ?_⟩
  · exact (Parser.makes_program Session.kept_true Node.statementsInherit_proper trivial hrun).1
  · unfold Compilation.ofText at hrun
    split at hrun
    · exact hsession hrun
    · cases hrun

/-- A function with a parameter that has a value, and a compound assignment in its body. -/
theorem proper_of_program_function :
    ∃ session later program output,
      Session.ofText "def int f(decl int x: 1) \x7b let x += 2; return x; \x7d" = .ok session ∧
      Parser.program session = .ok program later ∧ program.size = 1 ∧
      program.Throughout Node.Proper ∧
      Compilation.ofText {} "def int f(decl int x: 1) \x7b let x += 2; return x; \x7d" =
        .ok output ∧ output.program.Throughout Node.Proper := by
  obtain ⟨session, later, program, output, hsession, hprogram, hsize, houtput⟩ :=
    Compilation.exists_of_programOf?_isOk
      "def int f(decl int x: 1) \x7b let x += 2; return x; \x7d"
      (·.size == 1) (by decide +kernel) (by decide +kernel)
  exact ⟨session, later, program, output, hsession, hprogram, beq_iff_eq.mp hsize,
    proper_of_program.1 hprogram, houtput, proper_of_program.2.2 houtput⟩

end SinFrontend
