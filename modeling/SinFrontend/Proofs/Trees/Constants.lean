import SinFrontend.Proofs.Trees.Sessions
import SinFrontend.Proofs.Trees.Statements

/-!
# Constant marks are exact

Every expression carries a mark that says whether its value is known when the text is compiled. The
mark is set where a node is made and taken along while the node is grouped, selected from, cast or
given qualities. Without the word `constexpr`, it says what the tree says.

* `Expression.isKnown`: whether the value of a tree is known, from its leaves up.
* `Node.expressionsInherit_exact`: marks are right if those of the parts are.
* `exact_of_program`: all marks of a program are right, in whatever its expressions stand.
-/

namespace SinFrontend

/-! ## Known values -/

namespace Expression

mutual

/-- Whether the value of an expression is known when the text is compiled. Literals are known, and
    so is what is made of known values alone by operators, casts, lists and constructions. Names,
    calls, indices, selections and words stand for something that is not known. -/
def isKnown : Expression → Bool
  | literal .. => true
  | unary _ operand _ | typecast operand _ _ => operand.isKnown
  | binary _ left right _ => left.isKnown && right.isKnown
  | list _ elements _ _ => allKnown elements
  | construction _ initializers _ _ => valuesKnown initializers
  | identifier .. | indexed .. | procedure .. | call .. | typeName .. | attributeName ..
  | attributeSelection .. => false
termination_by structural expression => expression

/-- Whether the values of all expressions are known. -/
def allKnown : List Expression → Bool
  | [] => true
  | expression :: rest => expression.isKnown && allKnown rest
termination_by structural expressions => expressions

/-- Whether the values of all members are known. -/
def valuesKnown : List Initializer → Bool
  | [] => true
  | ⟨_, value⟩ :: rest => value.isKnown && valuesKnown rest
termination_by structural initializers => initializers

end

/-- Right marks of elements tell whether all their values are known. -/
theorem all_isConst {expressions : List Expression}
    (h : ∀ expression ∈ expressions, expression.isConst = expression.isKnown) :
    expressions.all isConst = allKnown expressions := by
  induction expressions with
  | nil => rfl
  | cons expression rest ih =>
    obtain ⟨hfirst, hrest⟩ := List.forall_mem_cons.mp h
    rw [List.all_cons, hfirst, ih hrest, allKnown]

theorem all_value_isConst {initializers : List Initializer}
    (h : ∀ initializer ∈ initializers, initializer.value.isConst = initializer.value.isKnown) :
    initializers.all (·.value.isConst) = valuesKnown initializers := by
  induction initializers with
  | nil => rfl
  | cons initializer rest ih =>
    obtain ⟨member, value⟩ := initializer
    obtain ⟨hfirst, hrest⟩ := List.forall_mem_cons.mp h
    rw [List.all_cons, hfirst, ih hrest, valuesKnown]

variable (expression : Expression)

@[simp] theorem isKnown_setConst (constant : Bool) :
    (expression.setConst constant).isKnown = expression.isKnown := by
  cases expression <;> rfl

/-- Qualities do not change a mark. -/
@[simp] theorem isConst_overrideQualities (qualities : QualitySet) :
    (expression.overrideQualities qualities).1.isConst = expression.isConst := by
  cases expression <;> rfl

@[simp] theorem isKnown_overrideQualities (qualities : QualitySet) :
    (expression.overrideQualities qualities).1.isKnown = expression.isKnown := by
  cases expression <;> rfl

theorem isKnown_of_isLiteral (h : expression.isLiteral = true) : expression.isKnown = true := by
  cases expression with
  | literal => rfl
  | _ => cases h

end Expression

/-! ## Exact marks -/

namespace Node

/-- The mark of an expression says whether its value is known. -/
def Exact : Node → Prop
  | .expression e => e.isConst = e.isKnown
  | .type _ | .statement _ | .block _ => True

/-- Without the word `constexpr`, the marks of what is read are right. -/
theorem expressionsInherit_exact :
    ExpressionsInherit (fun token => token.isKeyword "constexpr" = false) Exact where
  toTypesInherit := typesInherit_of_forall fun _ => trivial
  literalType _ := trivial
  literal _ _ := rfl
  identifier _ _ := rfl
  unary _ inOperand := inOperand.here
  binary _ inLeft inRight := congrArg₂ (· && ·) inLeft.here inRight.here
  indexed _ _ := rfl
  procedure _ _ := rfl
  call inProcedure := inProcedure.here
  construction inInitializers _ _ := Expression.all_value_isConst fun initializer hmem =>
    (inInitializers initializer hmem _ (List.mem_cons_of_mem _ List.mem_cons_self)).here
  emptyList _ := rfl
  list _ inElements _ := Expression.all_isConst fun element hmem => (inElements element hmem).here
  typeName _ := rfl
  attributeName _ := rfl
  selectedType _ := trivial
  attributeSelection {selected _ _ _ constant} _ inAttr _ := by
    have hattr : constant = false := inAttr.here
    exact (congrArg (selected.isConst && ·) hattr).trans (Bool.and_false _)
  typecast inOperand _ := inOperand.here
  constant {expression} _ marked := by
    rcases marked with hliteral | ⟨token, hplain, hmark⟩
    · exact (expression.isConst_setConst true).trans
        ((expression.isKnown_setConst true).trans (expression.isKnown_of_isLiteral hliteral)).symm
    · exact absurd hmark (by simp [hplain])
  overridden {expression layered qualities} inExpression _ added := by
    obtain rfl : (expression.overrideQualities qualities).1 = layered := congrArg Prod.fst added
    exact (expression.isConst_overrideQualities qualities).trans
      (inExpression.here.trans (expression.isKnown_overrideQualities qualities).symm)

end Node

/-! ## Programs -/

/-- All constant marks of a program are right if the word `constexpr` does not occur in its text:
    those in its statements, in default values of parameters, in lengths of arrays that are
    computed later, and in constructions. -/
theorem exact_of_program {tokens : List Token} {program : Block} {later : Session}
    (hplain : ∀ token ∈ tokens, token.isKeyword "constexpr" = false)
    (hrun : Parser.program (Session.ofTokens tokens) = .ok program later) :
    program.Throughout Node.Exact := by
  have hinherits : Node.StatementsInherit _ (fun _ => True) Node.Exact :=
    Node.expressionsInherit_exact.statements (fun _ => trivial) (fun _ => trivial) fun _ => trivial
  have hkept : Session.Kept
      (fun s => ∀ token ∈ s.cursor.tokens, token.isKeyword "constexpr" = false)
      (fun token => token.isKeyword "constexpr" = false) (fun _ => True) :=
    Session.kept_tokens fun closing _ => by
      simp [Token.isKeyword, Token.hasForm, Parser.kind_of_isClosingAngle closing]
  refine (Parser.makes_program hkept hinherits (fun token hmem => ?_) hrun).1
  rcases Session.mem_tokens_ofTokens hmem with hmem | ⟨line, rfl⟩
  · exact hplain token hmem
  · rfl

/-- A length that is computed later, a default value, an assignment to what is not known, and a
    construction with values of both kinds. -/
theorem exact_of_program_construction :
    ∃ tokens program later,
      Token.ofText ("decl array<2 * n, int> a; def int f(decl int x: -2 as int) \x7b " ++
        "let x += 1; construct p \x7b u: (1, 'c'), v: f(3) \x7d return x; \x7d") = .ok tokens ∧
      (∀ token ∈ tokens, token.isKeyword "constexpr" = false) ∧
      Parser.program (Session.ofTokens tokens) = .ok program later ∧ program.size = 2 ∧
      program.Throughout Node.Exact := by
  have hreads : Parser.readsAs Parser.program
      (fun tokens program => program.size == 2 && tokens.all (!·.isKeyword "constexpr"))
      ("decl array<2 * n, int> a; def int f(decl int x: -2 as int) \x7b " ++
        "let x += 1; construct p \x7b u: (1, 'c'), v: f(3) \x7d return x; \x7d") = true := by
    decide +kernel
  obtain ⟨tokens, program, later, htokens, hrun, htest⟩ := Parser.exists_of_readsAs hreads
  obtain ⟨hsize, hplain⟩ := Bool.and_eq_true_iff.mp htest
  have hplain : ∀ token ∈ tokens, token.isKeyword "constexpr" = false := by simpa using hplain
  exact ⟨tokens, program, later, htokens, hplain, hrun, by simpa using hsize,
    exact_of_program hplain hrun⟩

end SinFrontend
