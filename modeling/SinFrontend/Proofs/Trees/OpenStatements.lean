import SinFrontend.Proofs.Trees.Nodes

/-!
# Open statements

A statement is open if an `else` behind it could belong to an `if` at its end. If it is the first
branch of an `if` that has an `else`, that `else` belongs to an `if` further out than the nearest
one.

* `Statement.isOpen`: an `else` behind the statement could belong to an `if` at its end.
* `Statement.isFar`: the `else` of the statement belongs to an `if` around an open one.
* `Statement.farElses`, `Block.farElses`: how many `else` belong to an `if` around an open one.
* `Node.Nearest`: the `else` of a node is none of them.
* `Node.everywhere_nearest`: without such `else`, every `else` belongs to the nearest `if`.
-/

namespace SinFrontend

/-! ## Open statements -/

/-- Whether an `else` behind a statement could belong to an `if` at its end. -/
def Statement.isOpen : Statement → Bool
  | ⟨.ifThen .., _⟩ => true
  | ⟨.ifElse _ _ otherwise, _⟩ => otherwise.isOpen
  | ⟨.whileLoop _ branch, _⟩ => branch.isOpen
  | _ => false
termination_by structural statement => statement

/-- Whether a statement has an `else` that belongs to an `if` around an open branch. -/
def Statement.isFar : Statement → Bool
  | ⟨.ifElse _ branch _, _⟩ => branch.isOpen
  | _ => false

mutual

/-- How many `else` in a statement belong to an `if` whose first branch is open. -/
def Statement.farElses : Statement → ℕ
  | ⟨form, _⟩ => form.farElses
termination_by structural statement => statement

/-- How many `else` in a form belong to an `if` whose first branch is open. -/
def Form.farElses : Form → ℕ
  | .ifElse _ branch otherwise => branch.isOpen.toNat + branch.farElses + otherwise.farElses
  | .ifThen _ branch | .whileLoop _ branch => branch.farElses
  | .declaration _ _ _ _ _ params => Statement.farElsesOfAll params
  | .functionDefinition _ _ params body => Statement.farElsesOfAll params + body.farElses
  | .structDefinition _ body | .scopedBlock body => body.farElses
  | _ => 0
termination_by structural form => form

/-- How many `else` in a block belong to an `if` whose first branch is open. -/
def Block.farElses : Block → ℕ
  | ⟨statements, _⟩ => Statement.farElsesOfAll statements
termination_by structural block => block

/-- How many `else` in statements belong to an `if` whose first branch is open. -/
def Statement.farElsesOfAll : List Statement → ℕ
  | [] => 0
  | statement :: rest => statement.farElses + Statement.farElsesOfAll rest
termination_by structural statements => statements

end

namespace Statement

theorem farElses_le_of_mem {statement : Statement} {statements : List Statement}
    (h : statement ∈ statements) : statement.farElses ≤ farElsesOfAll statements := by
  induction statements with
  | nil => cases h
  | cons first rest ih =>
    rw [farElsesOfAll]
    rcases List.mem_cons.mp h with rfl | hrest
    · exact Nat.le_add_right _ _
    · exact Nat.le_trans (ih hrest) (Nat.le_add_left _ _)

end Statement

namespace Block

theorem farElses_eq (block : Block) :
    block.farElses = Statement.farElsesOfAll block.statements := by
  obtain ⟨statements, hasReturn⟩ := block
  rfl

theorem farElses_ofList (statements : List Statement) :
    (ofList statements).farElses = Statement.farElsesOfAll statements := by
  rw [farElses_eq, statements_ofList]

end Block

/-! ## Nodes -/

namespace Node

/-- The `else` of a statement belongs to the nearest `if`. -/
def Nearest : Node → Prop
  | .statement s => s.isFar = false
  | .type _ | .expression _ | .block _ => True

/-- How many `else` in a node belong to an `if` whose first branch is open. -/
def farElses : Node → ℕ
  | .statement s => s.farElses
  | .block b => b.farElses
  | .type _ | .expression _ => 0

/-- No statement or block stands directly in a type. -/
theorem farElses_of_mem_type {type : DataType} {part : Node} (h : part ∈ type.parts) :
    part.farElses = 0 := by
  rcases List.mem_append.mp h with hcontained | hlength
  · obtain ⟨contained, -, rfl⟩ := List.mem_map.mp hcontained
    rfl
  · generalize type.length = length at hlength
    cases length with
    | deferred => rw [List.mem_singleton.mp hlength]; rfl
    | _ => cases hlength

/-- No statement or block stands directly in an expression. -/
theorem farElses_of_mem_expression {expression : Expression} {part : Node}
    (h : part ∈ expression.parts) : part.farElses = 0 := by
  cases expression with
  | identifier | attributeName => cases h
  | _ =>
    simp only [Expression.parts, Initializer.parts, List.mem_cons, List.mem_map, List.mem_flatMap,
      List.not_mem_nil, or_false] at h
    grind [farElses]

theorem farElses_le_of_mem_map {statements : List Statement} {part : Node}
    (h : part ∈ statements.map .statement) :
    part.farElses ≤ Statement.farElsesOfAll statements := by
  obtain ⟨statement, hmem, rfl⟩ := List.mem_map.mp h
  exact Statement.farElses_le_of_mem hmem

/-- Whatever is in a part is in the whole. -/
theorem farElses_le_of_mem_parts {node part : Node} (h : part ∈ node.parts) :
    part.farElses ≤ node.farElses := by
  cases node with
  | type t => exact Nat.le_of_eq (farElses_of_mem_type h)
  | expression e => exact Nat.le_of_eq (farElses_of_mem_expression h)
  | statement s =>
    obtain ⟨form, line⟩ := s
    have hparams {params : List Statement} (h : part ∈ params.map .statement) :=
      farElses_le_of_mem_map h
    have hvalue {values : List Expression} (h : part ∈ values.map .expression) :
        part.farElses = 0 := by
      obtain ⟨value, -, rfl⟩ := List.mem_map.mp h
      rfl
    cases form with
    | includeFile => cases h
    | _ =>
      simp only [parts, Form.parts, List.mem_cons, List.mem_append, List.not_mem_nil,
        or_false] at h
      grind [farElses, Statement.farElses, Form.farElses]
  | block b =>
    exact Nat.le_trans (farElses_le_of_mem_map h) (Nat.le_of_eq b.farElses_eq.symm)

theorem nearest_of_farElses {node : Node} (h : node.farElses = 0) : node.Nearest := by
  cases node with
  | statement s =>
    obtain ⟨form, line⟩ := s
    cases form with
    | ifElse condition branch otherwise =>
      simp only [farElses, Statement.farElses, Form.farElses, Nat.add_eq_zero_iff] at h
      exact Bool.toNat_eq_zero.mp h.1.1
    | _ => rfl
  | _ => trivial

/-- If no `else` belongs to an `if` around an open one, each belongs to the nearest `if`. -/
theorem everywhere_nearest {node : Node} (h : node.farElses = 0) : node.Everywhere Nearest := by
  induction node using Node.induction with
  | step node ih =>
    refine .intro (nearest_of_farElses h) fun part hpart => ih part hpart ?_
    exact Nat.eq_zero_of_le_zero (h ▸ farElses_le_of_mem_parts hpart)

end Node

end SinFrontend
