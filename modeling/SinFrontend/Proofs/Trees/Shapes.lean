import SinFrontend.Proofs.Trees.Statements

/-!
# Shapes of expressions

Nodes with two operands are made for any operator that may stand between them, and made into others
where the operator asks for it. What is left in a tree has the shape that its kind of node promises.

* `Expression.Shaped`: the operators of unary and binary nodes, the length of a list, and the type
  of a selected attribute.
* `Node.expressionsInherit_shaped`: nodes have their shape if those inside them do.
* `shaped_of_expression`: every node of an expression that is read has its shape.
-/

namespace SinFrontend

/-! ## Shapes -/

/-- The operators of nodes with one operand. -/
def Operator.unary : List Operator :=
  [.unaryPlus, .unaryMinus, .dereference, .address, .bitNot, .not]

theorem Operator.mem_unary_of_toUnary? {source op : Operator} (h : source.toUnary? = some op) :
    op ∈ unary := by
  cases source <;> cases h <;> decide

/-- The types of attributes: integers without a sign that cannot be changed. -/
structure DataType.IsAttributeType (type : DataType) : Prop where
  kind : type.kind = .int
  final : type.qualities.final = true
  unsigned : type.qualities.unsigned = true

/-- The shape of a node. -/
def Expression.Shaped : Expression → Prop
  | .binary op _ _ _ => op.IsInfix
  | .unary op _ _ => op ∈ Operator.unary
  | .list _ elements _ _ => elements.length ≠ 1
  | .attributeSelection _ _ type _ => type.IsAttributeType
  | _ => True

/-! ## Qualities of attributes -/

namespace DataType

/-- No quality takes `final` or `unsigned` back. -/
theorem final_unsigned_of_add {set grown : QualitySet} {quality : Quality}
    (h : set.final = true ∧ set.unsigned = true) (hadded : set.add quality = .ok grown) :
    grown.final = true ∧ grown.unsigned = true := by
  obtain ⟨hfinal, hunsigned⟩ := h
  cases quality <;> simp only [QualitySet.add] at hadded
  case const =>
    rw [if_pos hfinal] at hadded
    cases hadded
  case final =>
    split at hadded <;> cases hadded
    exact ⟨rfl, hunsigned⟩
  case unsigned =>
    cases hadded
    exact ⟨hfinal, rfl⟩
  all_goals
    cases hadded
    exact ⟨hfinal, hunsigned⟩

variable {type : DataType}

theorem IsAttributeType.addQualities (h : type.IsAttributeType) (qualities : QualitySet) :
    (type.addQualities qualities).1.IsAttributeType := by
  obtain ⟨hfinal, hunsigned⟩ := QualitySet.addEach_induction final_unsigned_of_add
    ⟨h.final, h.unsigned⟩ qualities.listed
  exact ⟨h.kind, hfinal, hunsigned⟩

theorem isAttributeType_attributeType : Parser.attributeType.IsAttributeType :=
  ⟨rfl, rfl, rfl⟩

end DataType

/-! ## Expressions -/

namespace Expression

theorem Shaped.setConst {expression : Expression} (h : expression.Shaped) (constant : Bool) :
    (expression.setConst constant).Shaped := by
  cases expression <;> exact h

/-- Qualities change the type of a selected attribute, and what is no matter of shape. -/
theorem Shaped.overrideQualities {expression : Expression} (h : expression.Shaped)
    (qualities : QualitySet) : (expression.overrideQualities qualities).1.Shaped := by
  cases expression with
  | attributeSelection selected attr type constant =>
    exact DataType.IsAttributeType.addQualities h qualities
  | _ => exact h

end Expression

namespace Node

/-- An expression has the shape of its kind of node. -/
def Shaped : Node → Prop
  | .expression e => e.Shaped
  | .type _ | .statement _ | .block _ => True

variable {word : Token → Prop}

/-- What is read has its shape. -/
theorem expressionsInherit_shaped : ExpressionsInherit word Shaped where
  toTypesInherit := typesInherit_of_forall fun _ => trivial
  literalType _ := trivial
  literal _ _ := trivial
  identifier _ _ := trivial
  unary unary _ := Operator.mem_unary_of_toUnary? unary
  binary isInfix _ _ := isInfix
  indexed _ _ := trivial
  procedure _ _ := trivial
  call _ := trivial
  construction _ _ _ := trivial
  emptyList _ := Nat.zero_ne_one
  list several _ _ := (Nat.lt_of_succ_le several).ne'
  typeName _ := trivial
  attributeName _ := trivial
  selectedType _ := trivial
  attributeSelection {_ _ qualities type _} _ _ added := by
    obtain rfl : (Parser.attributeType.addQualities qualities).1 = type := congrArg Prod.fst added
    exact DataType.isAttributeType_attributeType.addQualities qualities
  typecast _ _ := trivial
  constant inExpression _ := inExpression.here.setConst true
  overridden {expression layered qualities} inExpression _ added := by
    obtain rfl : (expression.overrideQualities qualities).1 = layered := congrArg Prod.fst added
    exact inExpression.here.overrideQualities qualities

end Node

/-- Every node of an expression that is read has its shape, from whatever tokens and in whatever
    surroundings: operands stand around no arrow, `:`, `as`, `[`, `(` or prefix operator, and behind
    nothing but a prefix operator; no list has exactly one element; and what `:` selects is a final
    and unsigned integer. -/
theorem shaped_of_expression {context : Context} {s later : Session} {expression : Expression}
    (hrun : Parser.expression context s = .ok expression later) :
    expression.Throughout Node.Shaped :=
  (Parser.makes_expression Session.kept_true
    (Node.expressionsInherit_shaped.statements (fun _ => trivial) (fun _ => trivial)
      fun _ => trivial) context trivial hrun).1

/-- An attribute with a further quality, in a list, beside an operation. -/
theorem shaped_of_expression_attribute :
    ∃ tokens expression later,
      Token.ofText "((x : len & long) + -f[2], \x7b\x7d);" = .ok tokens ∧
      Parser.expression {} (.ofTokens tokens) = .ok expression later ∧
      expression.isConst = false ∧ expression.Throughout Node.Shaped := by
  have hreads : Parser.readsAs (Parser.expression {}) (fun _ expression => !expression.isConst)
      "((x : len & long) + -f[2], \x7b\x7d);" = true := by
    decide +kernel
  obtain ⟨tokens, expression, later, htokens, hrun, hconst⟩ := Parser.exists_of_readsAs hreads
  exact ⟨tokens, expression, later, htokens, hrun, by simpa using hconst,
    shaped_of_expression hrun⟩

end SinFrontend
