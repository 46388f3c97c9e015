import SinFrontend.Parser.Operation
import SinFrontend.Proofs.Trees.Nodes
import SinFrontend.Returns

/-!
# Properties that trees inherit

There are only so many ways in which a node is made of others while a text is read. A property that
every such node has, as soon as it holds throughout the trees that the node is made of, holds
throughout every tree that is read.

* `Node.TypesInherit`, `Node.ExpressionsInherit`, `Node.StatementsInherit`: the ways in which types,
  expressions and statements are made, as conditions on a property.
-/

namespace SinFrontend

/-- A set that grew out of the empty one, one quality at a time. -/
inductive QualitySet.Grown : QualitySet → Prop where
  | empty : Grown .empty
  | add {set grown : QualitySet} {quality : Quality} (before : Grown set)
    (added : set.add quality = .ok grown) : Grown grown

/-- What adding a quality keeps, adding several qualities keeps, also up to a conflict. -/
theorem QualitySet.addEach_induction {p : QualitySet → Prop}
    (hadd : ∀ {set grown : QualitySet} {quality : Quality}, p set → set.add quality = .ok grown →
      p grown) {set : QualitySet} (h : p set) (qualities : List Quality) :
    p (set.addEach qualities).1 := by
  induction qualities generalizing set with
  | nil => exact h
  | cons quality rest ih =>
    rw [QualitySet.addEach]
    cases hadded : set.add quality with
    | ok grown => exact ih (hadd h hadded)
    | error conflict => exact h

/-- The operators of nodes with two operands. -/
structure Operator.IsInfix (op : Operator) : Prop where
  notPrefix : op.isPrefixOnly = false
  notMove : op.isMoveAssignment = false
  notIndex : op ≠ .index
  notProcedure : op ≠ .procOperator
  notSelection : op ≠ .attributeSelection
  notTypecast : op ≠ .typecast

/-- A value for a declaration is given. -/
def Statement.isInitialized : Statement → Bool
  | ⟨.declaration _ _ value _ _ _, _⟩ => value.isSome
  | _ => false

namespace Node

/-- The types that are read have `p`, if `p` holds throughout what they are made of. Their words
    satisfy `word`. -/
structure TypesInherit (word : Token → Prop) (p : Node → Prop) : Prop where
  builtin {token : Token} {qualities : QualitySet} (read : word token)
    (kind : token.kind = .keyword ∨ token.kind = .identifier)
    (ptr : token.isKeyword "ptr" = false) (reference : token.hasForm .identifier "ref" = false)
    (array : token.isKeyword "array" = false) (tuple : token.isKeyword "tuple" = false)
    (struct : PrimaryKind.ofName token.text ≠ .struct) (grown : qualities.Grown) :
    p (.type (.ofKind (PrimaryKind.ofName token.text) qualities))
  character : p (.type (.make .char [] .empty .unspecified none))
  struct {token : Token} {qualities : QualitySet} (read : word token)
    (kind : token.kind = .identifier) (struct : PrimaryKind.ofName token.text = .struct)
    (grown : qualities.Grown) : p (.type (.structNamed token.text qualities))
  pointer {target : DataType} {qualities : QualitySet} (inTarget : target.Throughout p)
    (grown : qualities.Grown) : p (.type (.pointerTo target qualities))
  reference {target : DataType} {qualities : QualitySet} (inTarget : target.Throughout p)
    (grown : qualities.Grown) : p (.type (.referenceTo target qualities))
  array {element : DataType} {length : ArrayLength} {qualities : QualitySet}
    (inElement : element.Throughout p) (inLength : ∀ part ∈ length.parts, part.Everywhere p)
    (grown : qualities.Grown) : p (.type (.arrayOf element length qualities))
  tuple {members : List DataType} {qualities : QualitySet} (some : members ≠ [])
    (inMembers : ∀ member ∈ members, member.Throughout p) (grown : qualities.Grown) :
    p (.type (.tupleOf members qualities))
  layered {type layered : DataType} {qualities : QualitySet} (inType : type.Throughout p)
    (grown : qualities.Grown) (added : type.addQualities qualities = (layered, none)) :
    p (.type layered)

/-- The expressions that are read, and the types in them, have `p`, if `p` holds throughout what
    they are made of. An expression is marked constant if it is a literal or marked by a word. -/
structure ExpressionsInherit (word : Token → Prop) (p : Node → Prop) : Prop
    extends TypesInherit word p where
  literalType {kind : PrimaryKind} (kinds : kind ∈ [.int, .float, .string, .char, .bool, .void]) :
    p (.type (.ofLiteral kind))
  literal {kind : PrimaryKind} (kinds : kind ∈ [.int, .float, .string, .char, .bool, .void])
    (value : String) : p (.expression (.ofLiteral kind value))
  identifier {token : Token} (read : word token) (kind : token.kind = .identifier) :
    p (.expression (.identifier token.text false))
  unary {source op : Operator} {operand : Expression} (unary : source.toUnary? = some op)
    (inOperand : operand.Throughout p) :
    p (.expression (.unary op operand operand.isConst))
  binary {op : Operator} {left right : Expression} (isInfix : op.IsInfix)
    (inLeft : left.Throughout p) (inRight : right.Throughout p) :
    p (.expression (.binary op left right (left.isConst && right.isConst)))
  indexed {target index : Expression} (inTarget : target.Throughout p)
    (inIndex : index.Throughout p) : p (.expression (.indexed target index false))
  procedure {name : Expression} {args : List Expression} (inName : name.Throughout p)
    (inArgs : ∀ arg ∈ args, arg.Throughout p) : p (.expression (.procedure name args false))
  call {name : Expression} {args : List Expression} {constant : Bool}
    (inProcedure : (Expression.procedure name args constant).Throughout p) :
    p (.expression (.call name args constant))
  construction {initializers : List Initializer}
    (inInitializers : ∀ initializer ∈ initializers, ∀ part ∈ initializer.parts,
      part.Everywhere p) (explicitType : Option String) (hasDefault : Bool) :
    p (.expression (.construction explicitType initializers hasDefault
      (initializers.all (·.value.isConst))))
  emptyList (kind : ListKind) : p (.expression (.emptyList kind))
  list {elements : List Expression} (several : 2 ≤ elements.length)
    (inElements : ∀ element ∈ elements, element.Throughout p) (kind : ListKind) :
    p (.expression (.list kind elements .empty (elements.all (·.isConst))))
  typeName {type : DataType} (inType : type.Throughout p) :
    p (.expression (.typeName type false))
  attributeName (attr : Attribute) : p (.expression (.attributeName attr .empty false))
  selectedType {qualities : QualitySet} {type : DataType}
    (added : Parser.attributeType.addQualities qualities = (type, none)) : p (.type type)
  attributeSelection {selected : Expression} {attr : Attribute} {qualities : QualitySet}
    {type : DataType} {constant : Bool} (inSelected : selected.Throughout p)
    (inAttr : (Expression.attributeName attr qualities constant).Throughout p)
    (added : Parser.attributeType.addQualities qualities = (type, none)) :
    p (.expression (.attributeSelection selected attr type (selected.isConst && constant)))
  typecast {operand : Expression} {target : DataType} {constant : Bool}
    (inOperand : operand.Throughout p)
    (inTarget : (Expression.typeName target constant).Throughout p) :
    p (.expression (.typecast operand target operand.isConst))
  constant {expression : Expression} (inExpression : expression.Throughout p)
    (marked : expression.isLiteral = true ∨
      ∃ token, word token ∧ token.isKeyword "constexpr" = true) :
    p (.expression (expression.setConst true))
  overridden {expression layered : Expression} {qualities : QualitySet}
    (inExpression : expression.Throughout p) (grown : qualities.Grown)
    (added : expression.overrideQualities qualities = (layered, none)) : p (.expression layered)

/-- The statements and blocks that are read, and the trees in them, have `p`, if `p` holds
    throughout what they are made of. The names that they introduce satisfy `name`. -/
structure StatementsInherit (word : Token → Prop) (name : String → Prop) (p : Node → Prop) : Prop
    extends ExpressionsInherit word p where
  block {statements : List Statement} (inStatements : ∀ statement ∈ statements,
    statement.Throughout p ∧ statement.isInitialized = false) :
    p (.block (.ofList statements))
  includeFile (filename : String) (line : ℕ) : p (.statement ⟨.includeFile filename, line⟩)
  structType {id : String} (named : name id) : p (.type (.structNamed id .empty))
  declaration {type : DataType} {id : String} {value : Option Expression} {params : List Statement}
    (inType : type.Throughout p) (named : name id)
    (inValue : ∀ initial, value = some initial → initial.Throughout p)
    (inParams : ∀ param ∈ params, param.Throughout p ∧ param.isDeclaration = true)
    (isFunction isStruct : Bool) (line : ℕ) :
    p (.statement ⟨.declaration type id value isFunction isStruct params, line⟩)
  allocation {type : DataType} {id : String} {value : Option Expression}
    (inType : type.Throughout p) (valid : type.isValid = true) (named : name id)
    (inValue : ∀ initial, value = some initial → initial.Throughout p) (line : ℕ) :
    p (.statement ⟨.allocation type id value, line⟩)
  assignment {target value : Expression} (inTarget : target.Throughout p)
    (inValue : value.Throughout p) (line : ℕ) : p (.statement ⟨.assignment target value, line⟩)
  compoundAssignment {op base : Operator} {target value : Expression}
    (compound : op.compoundBase? = some base) (inTarget : target.Throughout p)
    (inValue : value.Throughout p) (line : ℕ) :
    p (.statement ⟨.compoundAssignment target
      (.binary base target value (target.isConst && value.isConst)) base, line⟩)
  movement {destination source : Expression} (inDestination : destination.Throughout p)
    (inSource : source.Throughout p) (line : ℕ) :
    p (.statement ⟨.movement destination source, line⟩)
  returnValue {value : Expression} (inValue : value.Throughout p) (line : ℕ) :
    p (.statement ⟨.returnValue value, line⟩)
  ifThen {condition : Expression} {branch : Statement} (inCondition : condition.Throughout p)
    (inBranch : branch.Throughout p ∧ branch.isInitialized = false) (line : ℕ) :
    p (.statement ⟨.ifThen condition branch, line⟩)
  ifElse {condition : Expression} {branch otherwise : Statement}
    (inCondition : condition.Throughout p)
    (inBranch : branch.Throughout p ∧ branch.isInitialized = false)
    (inOtherwise : otherwise.Throughout p ∧ otherwise.isInitialized = false) (line : ℕ) :
    p (.statement ⟨.ifElse condition branch otherwise, line⟩)
  whileLoop {condition : Expression} {branch : Statement} (inCondition : condition.Throughout p)
    (inBranch : branch.Throughout p ∧ branch.isInitialized = false) (line : ℕ) :
    p (.statement ⟨.whileLoop condition branch, line⟩)
  functionDefinition {returnType : DataType} {id : String} {params : List Statement} {body : Block}
    (inType : returnType.Throughout p) (named : name id)
    (inParams : ∀ param ∈ params, param.Throughout p ∧ param.isDeclaration = true)
    (inBody : body.Throughout p) (returns : body.bodyReturns = .ok true) (line : ℕ) :
    p (.statement ⟨.functionDefinition id returnType params body, line⟩)
  structDefinition {id : String} {body : Block} (named : name id) (inBody : body.Throughout p)
    (line : ℕ) : p (.statement ⟨.structDefinition id body, line⟩)
  scopedBlock {block : Block} (inBlock : block.Throughout p) (line : ℕ) :
    p (.statement ⟨.scopedBlock block, line⟩)
  callStatement {call : Expression} (inCall : call.Throughout p) (isCall : call.isCall = true)
    (line : ℕ) : p (.statement ⟨.call call, line⟩)
  constructStatement {target : Expression} {initializers : List Initializer}
    {hasDefault constant : Bool} (inTarget : target.Throughout p)
    (inConstruction :
      (Expression.construction none initializers hasDefault constant).Throughout p) (line : ℕ) :
    p (.statement ⟨.construction target (.construction none initializers hasDefault constant),
      line⟩)

variable {word : Token → Prop} {name : String → Prop} {p : Node → Prop}

/-- A property of all types is inherited by them. -/
theorem typesInherit_of_forall (htype : ∀ type, p (.type type)) : TypesInherit word p := by
  constructor <;> intros <;> exact htype _

/-- A property of all types and expressions is inherited by them. -/
theorem expressionsInherit_of_forall (htype : ∀ type, p (.type type))
    (hexpression : ∀ expression, p (.expression expression)) : ExpressionsInherit word p := by
  constructor
  · exact typesInherit_of_forall htype
  all_goals intros; first | exact hexpression _ | exact htype _

/-- A property that says nothing of statements is inherited by them if it is by expressions. -/
theorem ExpressionsInherit.statements (h : ExpressionsInherit word p)
    (htype : ∀ type, p (.type type)) (hstatement : ∀ statement, p (.statement statement))
    (hblock : ∀ block, p (.block block)) : StatementsInherit word name p := by
  constructor
  case toExpressionsInherit => exact h
  all_goals intros; first | exact hstatement _ | exact hblock _ | exact htype _

end Node

end SinFrontend
