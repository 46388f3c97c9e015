import SinFrontend.Proofs.Trees.Sessions
import SinFrontend.Proofs.Trees.Statements

/-!
# The names of a program are identifiers

Every name that a program introduces is the text of an identifier of its source.

* `Statement.names`, `Block.names`: the names that statements introduce, at every depth.
* `Node.statementsInherit_named`: the names of what is read are identifiers if those of its parts
  are.
* `Parser.isIdentifier_of_program`: the names of a program that is read from a text are identifiers.
-/

namespace SinFrontend

/-! ## Names that trees introduce -/

mutual

/-- The names that a statement introduces, itself or inside. -/
def Statement.names : Statement → List String
  | ⟨form, _⟩ => form.names
termination_by structural statement => statement

/-- The names that a form introduces, itself or inside. -/
def Form.names : Form → List String
  | .declaration _ name _ _ _ params => name :: Statement.namesOfAll params
  | .allocation _ name _ => [name]
  | .functionDefinition name _ params body => name :: (Statement.namesOfAll params ++ body.names)
  | .structDefinition name body => name :: body.names
  | .scopedBlock block => block.names
  | .ifThen _ branch | .whileLoop _ branch => branch.names
  | .ifElse _ branch otherwise => branch.names ++ otherwise.names
  | _ => []
termination_by structural form => form

/-- The names that the statements of a block introduce. -/
def Block.names : Block → List String
  | ⟨statements, _⟩ => Statement.namesOfAll statements
termination_by structural block => block

/-- The names that statements introduce. -/
def Statement.namesOfAll : List Statement → List String
  | [] => []
  | statement :: rest => statement.names ++ Statement.namesOfAll rest
termination_by structural statements => statements

end

theorem Statement.mem_namesOfAll {name : String} {statements : List Statement} :
    name ∈ Statement.namesOfAll statements ↔ ∃ statement ∈ statements, name ∈ statement.names := by
  induction statements with
  | nil => simp [Statement.namesOfAll]
  | cons statement rest ih => simp [Statement.namesOfAll, ih]

/-- The names that a statement introduces are identifiers. -/
def Statement.Named (statement : Statement) : Prop :=
  ∀ name ∈ statement.names, IsIdentifier name

/-- The names that the statements of a block introduce are identifiers. -/
def Block.Named (block : Block) : Prop :=
  ∀ name ∈ block.names, IsIdentifier name

theorem Statement.forall_namesOfAll_iff {statements : List Statement} :
    (∀ name ∈ Statement.namesOfAll statements, IsIdentifier name) ↔
      ∀ statement ∈ statements, statement.Named := by
  constructor
  · intro h statement hmem name hname
    exact h name (mem_namesOfAll.mpr ⟨statement, hmem, hname⟩)
  · intro h name hname
    obtain ⟨statement, hmem, hin⟩ := mem_namesOfAll.mp hname
    exact h statement hmem name hin

theorem Block.named_iff {block : Block} :
    block.Named ↔ ∀ statement ∈ block.statements, statement.Named := by
  obtain ⟨statements, hasReturn⟩ := block
  exact Statement.forall_namesOfAll_iff

theorem Statement.named_declaration {type : DataType} {name : String} {value : Option Expression}
    {isFunction isStruct : Bool} {params : List Statement} {line : ℕ} :
    Statement.Named ⟨.declaration type name value isFunction isStruct params, line⟩ ↔
      IsIdentifier name ∧ ∀ param ∈ params, param.Named := by
  rw [← forall_namesOfAll_iff]
  exact List.forall_mem_cons

theorem Statement.named_functionDefinition {name : String} {type : DataType}
    {params : List Statement} {body : Block} {line : ℕ} :
    Statement.Named ⟨.functionDefinition name type params body, line⟩ ↔
      IsIdentifier name ∧ (∀ param ∈ params, param.Named) ∧ body.Named := by
  rw [← forall_namesOfAll_iff]
  exact List.forall_mem_cons.trans (and_congr_right fun _ => List.forall_mem_append)

theorem Statement.named_ifElse {condition : Expression} {branch otherwise : Statement} {line : ℕ} :
    Statement.Named ⟨.ifElse condition branch otherwise, line⟩ ↔ branch.Named ∧ otherwise.Named :=
  List.forall_mem_append

namespace Node

/-- The names that a statement or a block introduces are identifiers. -/
def Named : Node → Prop
  | .statement s => s.Named
  | .block b => b.Named
  | .type _ | .expression _ => True

variable {word : Token → Prop}

/-- So are those of what is read, if the names that are demanded are. -/
theorem statementsInherit_named : StatementsInherit word IsIdentifier Named where
  toExpressionsInherit := expressionsInherit_of_forall (fun _ => trivial) fun _ => trivial
  structType _ := trivial
  block {statements} inStatements := by
    rw [Named, Block.named_iff, Block.statements_ofList]
    exact fun statement hmem => (inStatements statement hmem).1.here
  declaration _ named _ inParams _ _ _ :=
    Statement.named_declaration.mpr ⟨named, fun param hmem => (inParams param hmem).1.here⟩
  allocation _ _ named _ _ := List.forall_mem_singleton.mpr named
  functionDefinition _ named inParams inBody _ _ := Statement.named_functionDefinition.mpr
    ⟨named, fun param hmem => (inParams param hmem).1.here, inBody.here⟩
  structDefinition named inBody _ := List.forall_mem_cons.mpr ⟨named, inBody.here⟩
  scopedBlock inBlock _ := inBlock.here
  ifThen _ inBranch _ := inBranch.1.here
  ifElse _ inBranch inOtherwise _ :=
    Statement.named_ifElse.mpr ⟨inBranch.1.here, inOtherwise.1.here⟩
  whileLoop _ inBranch _ := inBranch.1.here
  includeFile _ _ := nofun
  assignment _ _ _ := nofun
  compoundAssignment _ _ _ _ := nofun
  movement _ _ _ := nofun
  returnValue _ _ := nofun
  callStatement _ _ _ := nofun
  constructStatement _ _ _ := nofun

end Node

/-- The names of a program that is read from a text are identifiers. -/
theorem Parser.isIdentifier_of_program {text : String} {session later : Session} {block : Block}
    (htext : Session.ofText text = .ok session) (h : program session = .ok block later) :
    block.Named :=
  (makes_program Session.kept_lexed Node.statementsInherit_named
    (Session.lexed_ofText htext) h).1.here

end SinFrontend
