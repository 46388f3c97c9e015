import SinFrontend.DataType

/-!
# Expressions

Making, marking and comparing expressions.

* `Expression.setConst` marks a node as known, or not known, when the text is compiled.
* `Expression.overrideQualities` layers qualities on a node whose type is known without analysis.
* `Expression.sameTree` compares expressions node by node, constant marks included; types are
  compared as `DataType.sameType` does.
-/

namespace SinFrontend

/-- Why qualities could not be layered on an expression. -/
inductive OverrideError where
  /-- The type of the expression is not known without analysis. -/
  | unsupported
  | conflict (refused : QualityConflict)
  deriving DecidableEq

/-- The failure as messages describe it. -/
def OverrideError.message : OverrideError → String
  | unsupported => "quality override not supported; use a typecast"
  | conflict refused => refused.message

namespace Expression

/-! ## Making expressions -/

/-- A literal of a kind, which is constant. -/
def ofLiteral (kind : PrimaryKind) (value : String) : Expression :=
  .literal (.ofLiteral kind) value true

/-- The value that a return without a value returns. -/
def voidLiteral : Expression :=
  ofLiteral .void "void"

/-- A list without elements, which is constant. -/
def emptyList (kind : ListKind) : Expression :=
  .list kind [] .empty true

/-! ## Constant marks -/

/-- Whether the value is known when the text is compiled. -/
def isConst : Expression → Bool
  | literal _ _ constant | identifier _ constant | unary _ _ constant | binary _ _ _ constant
  | indexed _ _ constant | procedure _ _ constant | call _ _ constant
  | construction _ _ _ constant | list _ _ _ constant | typeName _ constant
  | attributeName _ _ constant | attributeSelection _ _ _ constant | typecast _ _ constant =>
    constant

/-- The expression with another constant mark at its root. -/
def setConst (expression : Expression) (constant : Bool) : Expression :=
  match expression with
  | literal type value _ => literal type value constant
  | identifier name _ => identifier name constant
  | unary op operand _ => unary op operand constant
  | binary op left right _ => binary op left right constant
  | indexed target index _ => indexed target index constant
  | procedure name args _ => procedure name args constant
  | call name args _ => call name args constant
  | construction explicitType initializers hasDefault _ =>
    construction explicitType initializers hasDefault constant
  | list kind elements qualities _ => list kind elements qualities constant
  | typeName type _ => typeName type constant
  | attributeName attr qualities _ => attributeName attr qualities constant
  | attributeSelection selected attr type _ => attributeSelection selected attr type constant
  | typecast operand target _ => typecast operand target constant

/-! ## Classes of nodes -/

/-- Whether an expression is a literal. -/
def isLiteral : Expression → Bool
  | literal .. => true
  | _ => false

/-- Whether an expression is a call. -/
def isCall : Expression → Bool
  | call .. => true
  | _ => false

/-- Whether the type of a node is known without analysis. -/
def hasTypeInformation : Expression → Bool
  | literal .. | typeName .. | attributeName .. | list .. | attributeSelection .. => true
  | _ => false

/-! ## Qualities -/

/-- Layers qualities on a node whose type is known without analysis, up to the first conflict. An
attribute word and a list keep the qualities themselves. -/
def overrideQualities (expression : Expression) (qualities : QualitySet) :
    Expression × Option OverrideError :=
  match expression with
  | literal type value constant =>
    let (type, conflict) := type.addQualities qualities
    (literal type value constant, conflict.map .conflict)
  | typeName type constant =>
    let (type, conflict) := type.addQualities qualities
    (typeName type constant, conflict.map .conflict)
  | attributeSelection selected attr type constant =>
    let (type, conflict) := type.addQualities qualities
    (attributeSelection selected attr type constant, conflict.map .conflict)
  | list kind elements own constant =>
    let (own, conflict) := own.addAll qualities
    (list kind elements own constant, conflict.map .conflict)
  | attributeName attr own constant =>
    let (own, conflict) := own.addAll qualities
    (attributeName attr own constant, conflict.map .conflict)
  | _ => (expression, some .unsupported)

/-! ## Equality -/

mutual

/-- Whether two expressions are the same tree. -/
def sameTree : Expression → Expression → Bool
  | literal type value constant, literal type' value' constant' =>
    type.sameType type' && value == value' && constant == constant'
  | identifier name constant, identifier name' constant' =>
    name == name' && constant == constant'
  | unary op operand constant, unary op' operand' constant' =>
    op == op' && operand.sameTree operand' && constant == constant'
  | binary op left right constant, binary op' left' right' constant' =>
    op == op' && left.sameTree left' && right.sameTree right' && constant == constant'
  | indexed target index constant, indexed target' index' constant' =>
    target.sameTree target' && index.sameTree index' && constant == constant'
  | procedure name args constant, procedure name' args' constant' =>
    name.sameTree name' && sameTrees args args' && constant == constant'
  | call name args constant, call name' args' constant' =>
    name.sameTree name' && sameTrees args args' && constant == constant'
  | construction explicitType initializers hasDefault constant,
    construction explicitType' initializers' hasDefault' constant' =>
    explicitType == explicitType' && sameInitializers initializers initializers'
      && hasDefault == hasDefault' && constant == constant'
  | list kind elements qualities constant, list kind' elements' qualities' constant' =>
    kind == kind' && sameTrees elements elements' && qualities == qualities'
      && constant == constant'
  | typeName type constant, typeName type' constant' =>
    type.sameType type' && constant == constant'
  | attributeName attr qualities constant, attributeName attr' qualities' constant' =>
    attr == attr' && qualities == qualities' && constant == constant'
  | attributeSelection selected attr type constant,
    attributeSelection selected' attr' type' constant' =>
    selected.sameTree selected' && attr == attr' && type.sameType type' && constant == constant'
  | typecast operand target constant, typecast operand' target' constant' =>
    operand.sameTree operand' && target.sameType target' && constant == constant'
  | _, _ => false
termination_by structural expression => expression

/-- Whether two lists of expressions are the same trees, one by one. -/
def sameTrees : List Expression → List Expression → Bool
  | [], [] => true
  | expression :: rest, expression' :: rest' =>
    expression.sameTree expression' && sameTrees rest rest'
  | _, _ => false
termination_by structural expressions => expressions

/-- Whether two lists of initializers are the same, one by one. -/
def sameInitializers : List Initializer → List Initializer → Bool
  | [], [] => true
  | ⟨member, value⟩ :: rest, ⟨member', value'⟩ :: rest' =>
    member.sameTree member' && value.sameTree value' && sameInitializers rest rest'
  | _, _ => false
termination_by structural initializers => initializers

end

end Expression

end SinFrontend
