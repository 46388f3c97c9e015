import Mathlib.Data.List.Induction
import SinFrontend.Statement

/-!
# The nodes of a tree

A program is a tree of statements, blocks, expressions and types, which stand inside each other in
almost every order: the length of an array type is an expression, a cast holds a type, and the body
of a definition is a block. A `Node` is any of them.

* `Node.parts`: what stands directly inside a node.
* `Node.Everywhere`: a property of a node and of all nodes inside it, at every depth.
* `Node.induction`: what goes over from the parts of a node to the node holds of all nodes.
* `DataType.Throughout`, `Expression.Throughout`, `Statement.Throughout`, `Block.Throughout`: the
  same for trees of one kind.
-/

namespace SinFrontend

/-- A node of a tree. -/
inductive Node where
  | type (type : DataType)
  | expression (expression : Expression)
  | statement (statement : Statement)
  | block (block : Block)

/-! ## Parts -/

/-- The expression of a length that is not computed yet. -/
def ArrayLength.parts : ArrayLength → List Node
  | deferred length => [.expression length]
  | unspecified | resolved _ => []

/-- The contained types, and the length. -/
def DataType.parts (type : DataType) : List Node :=
  type.contained.map .type ++ type.length.parts

/-- The member and its value. -/
def Initializer.parts (initializer : Initializer) : List Node :=
  [.expression initializer.member, .expression initializer.value]

/-- The operands of an expression, and the type that it holds. -/
def Expression.parts : Expression → List Node
  | literal type _ _ | typeName type _ => [.type type]
  | identifier .. | attributeName .. => []
  | unary _ operand _ => [.expression operand]
  | binary _ left right _ => [.expression left, .expression right]
  | indexed target index _ => [.expression target, .expression index]
  | procedure name args _ | call name args _ => .expression name :: args.map .expression
  | construction _ initializers _ _ => initializers.flatMap Initializer.parts
  | list _ elements _ _ => elements.map .expression
  | attributeSelection selected _ type _ => [.expression selected, .type type]
  | typecast operand target _ => [.expression operand, .type target]

/-- The types, expressions and parameters of a statement, its branches and its block. -/
def Form.parts : Form → List Node
  | includeFile _ => []
  | declaration type _ value _ _ params =>
    .type type :: (value.toList.map .expression ++ params.map .statement)
  | allocation type _ value => .type type :: value.toList.map .expression
  | assignment first second | compoundAssignment first second _ | movement first second
  | construction first second => [.expression first, .expression second]
  | returnValue value | call value => [.expression value]
  | ifThen condition branch | whileLoop condition branch =>
    [.expression condition, .statement branch]
  | ifElse condition branch otherwise =>
    [.expression condition, .statement branch, .statement otherwise]
  | functionDefinition _ returnType params body =>
    .type returnType :: .block body :: params.map .statement
  | structDefinition _ body | scopedBlock body => [.block body]

namespace Node

/-- The nodes that stand directly inside a node. -/
def parts : Node → List Node
  | .type t => t.parts
  | .expression e => e.parts
  | .statement s => s.form.parts
  | .block b => b.statements.map .statement

/-! ## All nodes -/

/-- A property holds of a node and of every node inside it. -/
inductive Everywhere (p : Node → Prop) : Node → Prop where
  | intro {node : Node} (here : p node) (parts : ∀ part ∈ node.parts, Everywhere p part) :
      Everywhere p node

variable {p q : Node → Prop} {node part : Node}

theorem Everywhere.here (h : node.Everywhere p) : p node := by
  cases h with
  | intro here _ => exact here

theorem Everywhere.parts (h : node.Everywhere p) : ∀ part ∈ node.parts, part.Everywhere p := by
  cases h with
  | intro _ parts => exact parts

/-- What follows for a node from a property of all nodes inside it holds of all of these nodes. -/
theorem Everywhere.imp (h : node.Everywhere p) (himp : ∀ node, node.Everywhere p → q node) :
    node.Everywhere q := by
  induction h with
  | intro here parts ih => exact .intro (himp _ (.intro here parts)) ih

theorem Everywhere.mono (h : node.Everywhere p) (hle : ∀ node, p node → q node) :
    node.Everywhere q :=
  h.imp fun node hnode => hle node hnode.here

/-- A node with the parts of another one needs the property only for itself. -/
theorem Everywhere.of_parts {other : Node} (h : node.Everywhere p) (here : p other)
    (hparts : other.parts = node.parts) : other.Everywhere p :=
  .intro here fun part hpart => h.parts part (hparts ▸ hpart)

end Node

/-! ## Induction -/

section

variable {part : Node}

theorem Node.sizeOf_le_of_mem_map {α : Type} [SizeOf α] {f : α → Node} {items : List α}
    (hf : ∀ item, sizeOf (f item) = 1 + sizeOf item) (h : part ∈ items.map f) :
    sizeOf part ≤ sizeOf items := by
  obtain ⟨item, hmem, rfl⟩ := List.mem_map.mp h
  have := List.sizeOf_lt_of_mem hmem
  rw [hf]
  omega

theorem Node.sizeOf_le_of_mem_value {value : Option Expression}
    (h : part ∈ value.toList.map .expression) : sizeOf part ≤ sizeOf value := by
  cases value with
  | none => cases h
  | some value =>
    obtain rfl := List.mem_singleton.mp h
    simp

theorem DataType.sizeOf_le_of_mem_parts {type : DataType} (h : part ∈ type.parts) :
    sizeOf part ≤ sizeOf type := by
  obtain ⟨kind, contained, qualities, length, name⟩ := type
  rw [mk.sizeOf_spec]
  rcases List.mem_append.mp h with hcontained | hlength
  · have := Node.sizeOf_le_of_mem_map (fun _ => Node.type.sizeOf_spec _) hcontained
    dsimp only at this
    omega
  · cases length with
    | deferred length =>
      obtain rfl := List.mem_singleton.mp hlength
      simp only [Node.expression.sizeOf_spec, ArrayLength.deferred.sizeOf_spec]
      omega
    | _ => cases hlength

theorem Expression.sizeOf_le_of_mem_parts {expression : Expression} (h : part ∈ expression.parts) :
    sizeOf part ≤ sizeOf expression := by
  have hlist {expressions : List Expression} (h : part ∈ expressions.map .expression) :=
    Node.sizeOf_le_of_mem_map (fun _ => by simp) h
  cases expression with
  | construction explicitType initializers hasDefault constant =>
    obtain ⟨⟨member, value⟩, hmem, hpart⟩ := List.mem_flatMap.mp h
    have := List.sizeOf_lt_of_mem hmem
    simp only [Initializer.parts, List.mem_cons, List.not_mem_nil, or_false] at hpart
    grind [Initializer.mk.sizeOf_spec, Node.expression.sizeOf_spec, construction.sizeOf_spec]
  | identifier | attributeName => cases h
  | _ =>
    simp only [parts, List.mem_cons, List.not_mem_nil, or_false] at h
    grind [Node.expression.sizeOf_spec, Node.type.sizeOf_spec]

theorem Form.sizeOf_le_of_mem_parts {form : Form} (h : part ∈ form.parts) :
    sizeOf part ≤ sizeOf form := by
  have hlist {params : List Statement} (h : part ∈ params.map .statement) :=
    Node.sizeOf_le_of_mem_map (fun _ => by simp) h
  have hvalue {value : Option Expression} (h : part ∈ value.toList.map .expression) :=
    Node.sizeOf_le_of_mem_value h
  cases form with
  | includeFile => cases h
  | _ =>
    simp only [parts, List.mem_cons, List.mem_append, List.not_mem_nil, or_false] at h
    grind [Node.expression.sizeOf_spec, Node.type.sizeOf_spec, Node.statement.sizeOf_spec,
      Node.block.sizeOf_spec]

/-- Parts are smaller than what they are parts of. -/
theorem Node.sizeOf_lt_of_mem_parts {node : Node} (h : part ∈ node.parts) :
    sizeOf part < sizeOf node := by
  cases node with
  | type t =>
    have := DataType.sizeOf_le_of_mem_parts h
    grind [type.sizeOf_spec]
  | expression e => 
    have := Expression.sizeOf_le_of_mem_parts h
    grind [expression.sizeOf_spec]
  | statement s =>
    obtain ⟨form, line⟩ := s
    have := Form.sizeOf_le_of_mem_parts h
    grind [statement.sizeOf_spec, Statement.mk.sizeOf_spec]
  | block b =>
    obtain ⟨statements, hasReturn⟩ := b
    have := Node.sizeOf_le_of_mem_map (fun _ => by simp) h
    grind [block.sizeOf_spec, Block.mk.sizeOf_spec]

/-- What goes over from the parts of a node to the node holds of all nodes. -/
@[elab_as_elim]
theorem Node.induction {motive : Node → Prop}
    (step : ∀ node, (∀ part ∈ node.parts, motive part) → motive node) (node : Node) :
    motive node :=
  step node fun part _ => induction step part
termination_by node
decreasing_by exact sizeOf_lt_of_mem_parts ‹_›

end

/-! ## Trees of one kind -/

/-- A property holds of all nodes of a type. -/
abbrev DataType.Throughout (p : Node → Prop) (type : DataType) : Prop :=
  (Node.type type).Everywhere p

/-- A property holds of all nodes of an expression. -/
abbrev Expression.Throughout (p : Node → Prop) (expression : Expression) : Prop :=
  (Node.expression expression).Everywhere p

/-- A property holds of all nodes of a statement. -/
abbrev Statement.Throughout (p : Node → Prop) (statement : Statement) : Prop :=
  (Node.statement statement).Everywhere p

/-- A property holds of all nodes of a block. -/
abbrev Block.Throughout (p : Node → Prop) (block : Block) : Prop :=
  (Node.block block).Everywhere p

namespace Block

theorem Throughout.of_mem {p : Node → Prop} {block : Block} {statement : Statement}
    (h : block.Throughout p) (hmem : statement ∈ block.statements) : statement.Throughout p :=
  h.parts _ (List.mem_map_of_mem hmem)

@[simp] theorem ofList_concat (statements : List Statement) (statement : Statement) :
    ofList (statements ++ [statement]) = (ofList statements).push statement :=
  List.foldl_append

theorem statements_ofList (statements : List Statement) :
    (ofList statements).statements = statements := by
  induction statements using List.reverseRecOn with
  | nil => rfl
  | append_singleton statements statement ih => rw [ofList_concat, push, ih]

end Block

end SinFrontend
