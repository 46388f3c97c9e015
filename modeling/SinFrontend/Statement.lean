import SinFrontend.Expression

/-!
# Statements and blocks

A statement is a form and the line on which it starts; a block is a list of statements that knows
whether one of them is a return. The mark of a block is kept by `Block.push`, the only way in
which a block grows.

* `Statement.sameTree` and `Block.sameTree` compare trees, lines and marks included.
-/

namespace SinFrontend

mutual

/-- A statement and its line. -/
structure Statement where
  form : Form
  line : Nat

/-- What a statement says. A movement stores its destination first, whichever arrow was written;
the value of a compound assignment is stored together with the operation on the old value. -/
inductive Form where
  | includeFile (filename : String)
  /-- A variable, function or struct that is announced and not defined. Only a parameter has a
  value. -/
  | declaration (type : DataType) (name : String) (value : Option Expression)
      (isFunction isStruct : Bool) (params : List Statement)
  | allocation (type : DataType) (name : String) (value : Option Expression)
  | assignment (target value : Expression)
  | compoundAssignment (target value : Expression) (op : Operator)
  | movement (destination source : Expression)
  | returnValue (value : Expression)
  | ifThen (condition : Expression) (branch : Statement)
  | ifElse (condition : Expression) (branch otherwise : Statement)
  | whileLoop (condition : Expression) (branch : Statement)
  | functionDefinition (name : String) (returnType : DataType) (params : List Statement)
      (body : Block)
  | structDefinition (name : String) (body : Block)
  | scopedBlock (block : Block)
  | call (call : Expression)
  | construction (target construction : Expression)

/-- A list of statements. -/
structure Block where
  statements : List Statement
  /-- Whether a return stands directly in the block. -/
  hasReturn : Bool

end

namespace Statement

/-- Whether a statement is a return. -/
def isReturn : Statement → Bool
  | ⟨.returnValue _, _⟩ => true
  | _ => false

/-- Whether a statement is a declaration. -/
def isDeclaration : Statement → Bool
  | ⟨.declaration .., _⟩ => true
  | _ => false

end Statement

/-- The short name of a form. -/
def Form.name : Form → String
  | includeFile .. => "include"
  | declaration .. => "declaration"
  | allocation .. => "allocation"
  | assignment .. => "assignment"
  | compoundAssignment .. => "compound assignment"
  | movement .. => "movement"
  | returnValue .. => "return"
  | ifThen .. | ifElse .. => "if/else"
  | whileLoop .. => "while loop"
  | functionDefinition .. => "function definition"
  | structDefinition .. => "struct definition"
  | scopedBlock .. => "scoped block"
  | call .. => "call"
  | construction .. => "construction"

namespace Block

/-- The block without statements. -/
def empty : Block :=
  { statements := [], hasReturn := false }

/-- The block with one more statement at its end. -/
def push (block : Block) (statement : Statement) : Block :=
  { statements := block.statements ++ [statement],
    hasReturn := block.hasReturn || statement.isReturn }

/-- The block of a list of statements. -/
def ofList (statements : List Statement) : Block :=
  statements.foldl push empty

/-- The number of statements that stand directly in a block. -/
def size (block : Block) : Nat :=
  block.statements.length

/-- Whether a block has no statement. -/
def isEmpty (block : Block) : Bool :=
  block.statements.isEmpty

end Block

/-! ## Equality -/

/-- Whether two optional values are the same trees, or both missing. -/
def sameValue : Option Expression → Option Expression → Bool
  | none, none => true
  | some value, some value' => value.sameTree value'
  | _, _ => false

mutual

/-- Whether two statements are the same tree on the same line. -/
def Statement.sameTree : Statement → Statement → Bool
  | ⟨form, line⟩, other => form.sameTree other.form && line == other.line
termination_by structural statement => statement

/-- Whether two forms are the same tree. -/
def Form.sameTree : Form → Form → Bool
  | .includeFile filename, .includeFile filename' => filename == filename'
  | .declaration type name value isFunction isStruct params,
    .declaration type' name' value' isFunction' isStruct' params' =>
    type.sameType type' && name == name' && sameValue value value' && isFunction == isFunction'
      && isStruct == isStruct' && Statement.sameTrees params params'
  | .allocation type name value, .allocation type' name' value' =>
    type.sameType type' && name == name' && sameValue value value'
  | .assignment target value, .assignment target' value' =>
    target.sameTree target' && value.sameTree value'
  | .compoundAssignment target value op, .compoundAssignment target' value' op' =>
    target.sameTree target' && value.sameTree value' && op == op'
  | .movement destination source, .movement destination' source' =>
    destination.sameTree destination' && source.sameTree source'
  | .returnValue value, .returnValue value' => value.sameTree value'
  | .ifThen condition branch, .ifThen condition' branch' =>
    condition.sameTree condition' && branch.sameTree branch'
  | .ifElse condition branch otherwise, .ifElse condition' branch' otherwise' =>
    condition.sameTree condition' && branch.sameTree branch' && otherwise.sameTree otherwise'
  | .whileLoop condition branch, .whileLoop condition' branch' =>
    condition.sameTree condition' && branch.sameTree branch'
  | .functionDefinition name returnType params body,
    .functionDefinition name' returnType' params' body' =>
    name == name' && returnType.sameType returnType' && Statement.sameTrees params params'
      && body.sameTree body'
  | .structDefinition name body, .structDefinition name' body' =>
    name == name' && body.sameTree body'
  | .scopedBlock block, .scopedBlock block' => block.sameTree block'
  | .call call, .call call' => call.sameTree call'
  | .construction target construction, .construction target' construction' =>
    target.sameTree target' && construction.sameTree construction'
  | _, _ => false
termination_by structural form => form

/-- Whether two blocks are the same tree. -/
def Block.sameTree : Block → Block → Bool
  | ⟨statements, hasReturn⟩, other =>
    Statement.sameTrees statements other.statements && hasReturn == other.hasReturn
termination_by structural block => block

/-- Whether two lists of statements are the same, one by one. -/
def Statement.sameTrees : List Statement → List Statement → Bool
  | [], [] => true
  | statement :: rest, statement' :: rest' =>
    statement.sameTree statement' && Statement.sameTrees rest rest'
  | _, _ => false
termination_by structural statements => statements

end

end SinFrontend
