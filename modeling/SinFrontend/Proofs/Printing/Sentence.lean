import SinFrontend.Grouping
import SinFrontend.Proofs.Printing.TypeTerm
import SinFrontend.Returns

/-!
# Printing statements

`Sentence` is the syntax of statements, and a program is a list of sentences. `pass` is not among
them: it leaves no statement.

* `Sentence.tree`: the statement that a sentence stands for. A block knows whether a return stands
  directly in it.
* `Sentence.print`: the text of a sentence, without the semicolon behind it. The first token of a
  statement stands on the line of the statement, and so does the first token of an assigned value.
* `Sentence.WellFormed`: what a sentence must satisfy beyond its form. Only a parameter has a default
  value, the type of an allocated variable is valid, a function returns on every path, and no branch
  in front of an `else` ends in an `if` that the `else` would belong to.
-/

namespace SinFrontend

/-- The text of an optional value behind a colon. -/
def printValue (value : Option Term) : List Pattern :=
  match value with
  | some value => .operator .attributeSelection :: value.print {}
  | none => []

/-! ## Declarations -/

/-- The syntax of declarations. -/
inductive DeclarationTerm where
  | variable (line : ℕ) (typed : TypedName) (value : Option Term)
  | function (line : ℕ) (typed : TypedName) (params : List DeclarationTerm)
  | struct (line : ℕ) (name : String)

namespace DeclarationTerm

mutual

/-- The declaration that a syntax stands for. -/
def tree : DeclarationTerm → Statement
  | .variable line typed value =>
    ⟨.declaration typed.tree typed.name (value.map Term.tree) false false [], line⟩
  | .function line typed params =>
    ⟨.declaration typed.tree typed.name none true false (trees params), line⟩
  | .struct line name => ⟨.declaration (.structNamed name .empty) name none false true [], line⟩
termination_by structural declaration => declaration

/-- The declarations that syntaxes stand for. -/
def trees : List DeclarationTerm → List Statement
  | [] => []
  | declaration :: more => declaration.tree :: trees more
termination_by structural declarations => declarations

end

mutual

/-- The text of a declaration. -/
def print : DeclarationTerm → List Pattern
  | .variable line typed value => .wordOn line "decl" :: (typed.print ++ printValue value)
  | .function line typed params =>
    .wordOn line "decl" :: (typed.print ++ .mark "(" :: (printFirst params ++ [.mark ")"]))
  | .struct line name => [.wordOn line "decl", .word "struct", .identifier name]
termination_by structural declaration => declaration

/-- The texts of parameters with commas between them. -/
def printFirst : List DeclarationTerm → List Pattern
  | [] => []
  | param :: params => param.print ++ printFurther params
termination_by structural params => params

/-- The texts of parameters with a comma before each of them. -/
def printFurther : List DeclarationTerm → List Pattern
  | [] => []
  | param :: params => .mark "," :: (param.print ++ printFurther params)
termination_by structural params => params

end

mutual

/-- Whether a declaration can be read, as a parameter or as a statement. -/
def WellFormed (isParameter : Bool) : DeclarationTerm → Prop
  | .variable _ typed value => typed.WellFormed ∧ (value.isSome = true → isParameter = true)
  | .function _ typed params => typed.WellFormed ∧ AllWellFormed params
  | .struct _ _ => True
termination_by structural declaration => declaration

/-- Whether parameters can be read. -/
def AllWellFormed : List DeclarationTerm → Prop
  | [] => True
  | param :: params => param.WellFormed true ∧ AllWellFormed params
termination_by structural params => params

end

end DeclarationTerm

/-! ## Statements -/

/-- The operators of assignments. -/
abbrev AssignmentOperator := {op : Operator // op.isCopyAssignment = true}

/-- The syntax of statements. A move is written with either arrow. -/
inductive Sentence where
  | includeFile (line : ℕ) (filename : String)
  | declaration (declared : DeclarationTerm)
  | allocation (line : ℕ) (typed : TypedName) (value : Option Term)
  | assignment (line : ℕ) (op : AssignmentOperator) (target value : Term)
  | movement (line : ℕ) (leftward : Bool) (destination source : Term)
  | returnValue (line : ℕ) (value : Option Term)
  | ifThen (line : ℕ) (condition : Term) (branch : Sentence)
  | ifElse (line : ℕ) (condition : Term) (branch otherwise : Sentence)
  | whileLoop (line : ℕ) (condition : Term) (branch : Sentence)
  | functionDefinition (line : ℕ) (typed : TypedName) (params : List DeclarationTerm)
      (body : List Sentence)
  | structDefinition (line : ℕ) (name : String) (body : List Sentence)
  | scopedBlock (line : ℕ) (body : List Sentence)
  | call (line : ℕ) (callee : Term) (args : List Term)
  | construction (line : ℕ) (target : Term) (members : List (String × Term)) (hasDefault : Bool)

namespace Sentence

/-- The assignment of a value with an operator. -/
def assignmentForm (op : Operator) (target value : Expression) : Form :=
  match op.compoundBase? with
  | none => .assignment target value
  | some base =>
    .compoundAssignment target (.binary base target value (target.isConst && value.isConst)) base

/-- The initializers of members. -/
def initializers (members : List (String × Term)) : List Initializer :=
  members.map fun member => ⟨.identifier member.1 false, member.2.tree⟩

/-- The expression of a construction. -/
def constructed (members : List (String × Term)) (hasDefault : Bool) : Expression :=
  .construction none (initializers members) hasDefault
    ((initializers members).all fun initializer => initializer.value.isConst)

mutual

/-- The statement that a sentence stands for. -/
def tree : Sentence → Statement
  | .includeFile line filename => ⟨.includeFile filename, line⟩
  | .declaration declared => declared.tree
  | .allocation line typed value =>
    ⟨.allocation typed.tree typed.name (value.map Term.tree), line⟩
  | .assignment line op target value => ⟨assignmentForm op.val target.tree value.tree, line⟩
  | .movement line _ destination source => ⟨.movement destination.tree source.tree, line⟩
  | .returnValue line value => ⟨.returnValue ((value.map Term.tree).getD .voidLiteral), line⟩
  | .ifThen line condition branch => ⟨.ifThen condition.tree branch.tree, line⟩
  | .ifElse line condition branch otherwise =>
    ⟨.ifElse condition.tree branch.tree otherwise.tree, line⟩
  | .whileLoop line condition branch => ⟨.whileLoop condition.tree branch.tree, line⟩
  | .functionDefinition line typed params body =>
    ⟨.functionDefinition typed.name typed.tree (DeclarationTerm.trees params)
      (.ofList (trees body)), line⟩
  | .structDefinition line name body => ⟨.structDefinition name (.ofList (trees body)), line⟩
  | .scopedBlock line body => ⟨.scopedBlock (.ofList (trees body)), line⟩
  | .call line callee args => ⟨.call (Term.call callee args).tree, line⟩
  | .construction line target members hasDefault =>
    ⟨.construction target.tree (constructed members hasDefault), line⟩
termination_by structural sentence => sentence

/-- The statements that sentences stand for. -/
def trees : List Sentence → List Statement
  | [] => []
  | sentence :: more => sentence.tree :: trees more
termination_by structural sentences => sentences

end

/-! ## Texts of statements -/

/-- Whether a semicolon is printed behind a sentence. -/
def isSimple : Sentence → Bool
  | .includeFile .. | .declaration .. | .allocation .. | .assignment .. | .movement ..
  | .returnValue .. | .call .. => true
  | _ => false

/-- What is printed behind a sentence. -/
def ending (sentence : Sentence) : List Pattern :=
  if sentence.isSimple then [.mark ";"] else []

/-- Whether a sentence ends in an `if` without `else`. -/
def endsInIf : Sentence → Bool
  | .ifThen .. => true
  | .ifElse _ _ _ otherwise => otherwise.endsInIf
  | .whileLoop _ _ branch => branch.endsInIf
  | _ => false

/-- The text of the initializer of a member. -/
def printMember (member : String × Term) : List Pattern :=
  .identifier member.1 :: .operator .attributeSelection :: member.2.print {}

/-- The texts of initializers and of the word `default`, with commas between them. -/
def printMembers (hasDefault : Bool) : List (String × Term) → List Pattern
  | [] => if hasDefault then [.word "default"] else []
  | [member] =>
    printMember member ++ if hasDefault then [.mark ",", .word "default"] else []
  | member :: more => printMember member ++ .mark "," :: printMembers hasDefault more

/-- The text of a move behind its word. -/
def printMovement (leftward : Bool) (destination source : Term) : List Pattern :=
  if leftward then destination.print {} ++ .operator .leftArrow :: source.print {}
  else source.print {} ++ .operator .rightArrow :: destination.print {}

/-- The text of a returned value. -/
def printReturned (value : Option Term) : List Pattern :=
  match value with
  | some value => value.print {}
  | none => []

mutual

/-- The text of a sentence without the semicolon behind it. -/
def print : Sentence → List Pattern
  | .includeFile line filename => [.wordOn line "include", { kind := .str, text := filename }]
  | .declaration declared => declared.print
  | .allocation line typed value => .wordOn line "alloc" :: (typed.print ++ printValue value)
  | .assignment line op target value =>
    .wordOn line "let" ::
      (target.print { guarded := true } ++
        .operator op.val :: Pattern.startingOn line (value.print {}))
  | .movement line leftward destination source =>
    .wordOn line "move" :: printMovement leftward destination source
  | .returnValue line value => .wordOn line "return" :: printReturned value
  | .ifThen line condition branch =>
    .wordOn line "if" :: .mark "(" ::
      (condition.print {} ++ .mark ")" :: (branch.print ++ branch.ending))
  | .ifElse line condition branch otherwise =>
    .wordOn line "if" :: .mark "(" ::
      (condition.print {} ++ .mark ")" ::
        ((branch.print ++ branch.ending) ++
          .word "else" :: (otherwise.print ++ otherwise.ending)))
  | .whileLoop line condition branch =>
    .wordOn line "while" :: .mark "(" ::
      (condition.print {} ++ .mark ")" :: (branch.print ++ branch.ending))
  | .functionDefinition line typed params body =>
    .wordOn line "def" ::
      (typed.print ++ .mark "(" ::
        (DeclarationTerm.printFirst params ++ .mark ")" :: .mark Grouping.brace.opening ::
          (printAll body ++ [.mark Grouping.brace.closing])))
  | .structDefinition line name body =>
    .wordOn line "def" :: .word "struct" :: .identifier name :: .mark Grouping.brace.opening ::
      (printAll body ++ [.mark Grouping.brace.closing])
  | .scopedBlock line body =>
    { Pattern.mark Grouping.brace.opening with line := some line } ::
      (printAll body ++ [.mark Grouping.brace.closing])
  | .call line callee args => Pattern.startingOn line ((Term.call callee args).print {})
  | .construction line target members hasDefault =>
    .wordOn line "construct" ::
      (target.print {} ++ .mark Grouping.brace.opening ::
        (printMembers hasDefault members ++ [.mark Grouping.brace.closing]))
termination_by structural sentence => sentence

/-- The texts of sentences, each with what is printed behind it. -/
def printAll : List Sentence → List Pattern
  | [] => []
  | sentence :: more => (sentence.print ++ sentence.ending) ++ printAll more
termination_by structural sentences => sentences

end

mutual

/-- Whether a sentence can be read. -/
def WellFormed : Sentence → Prop
  | .declaration declared => declared.WellFormed false
  | .allocation _ typed _ => typed.WellFormed ∧ typed.tree.isValid = true
  | .ifThen _ _ branch | .whileLoop _ _ branch => branch.WellFormed
  | .ifElse _ _ branch otherwise =>
    branch.endsInIf = false ∧ branch.WellFormed ∧ otherwise.WellFormed
  | .functionDefinition _ typed params body =>
    typed.WellFormed ∧ DeclarationTerm.AllWellFormed params ∧ AllWellFormed body ∧
      (Block.ofList (trees body)).bodyReturns = .ok true
  | .structDefinition _ _ body | .scopedBlock _ body => AllWellFormed body
  | _ => True
termination_by structural sentence => sentence

/-- Whether sentences can be read. -/
def AllWellFormed : List Sentence → Prop
  | [] => True
  | sentence :: more => sentence.WellFormed ∧ AllWellFormed more
termination_by structural sentences => sentences

end

end Sentence

end SinFrontend
