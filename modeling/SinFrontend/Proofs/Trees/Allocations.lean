import SinFrontend.Proofs.Trees.Statements

/-!
# Types of allocated variables

The type of an allocated variable is checked once, when all qualities before its name and behind it
have been added. So the types of all variables that a program allocates, at any depth, have passed
the check.

The policy that is written down forbids signs and widths on strings and structs alike. The check
looks for widths on structs only, and `alloc long string s;` passes it.

* `DataType.Admitted`: what the check lets through.
* `DataType.Allocatable`: what the policy lets through.
* `DataType.isValid_iff`, `DataType.Admitted.allocatable_iff`: the check admits strings with a width
  beside what the policy allows, and no other types.
* `allocations_of_program`: all allocations of a program are of admitted types.
* `not_allocatable_of_program`: not all of them are of types that the policy allows.
-/

namespace SinFrontend

/-- Whether a width was chosen. -/
def QualitySet.hasWidth (set : QualitySet) : Bool :=
  set.long || set.short

namespace DataType

variable {type : DataType}

/-- Floats are not short, strings and structs have no sign, structs have no width, static strings
    are constant, and references are managed. -/
structure Admitted (type : DataType) : Prop where
  float : type.kind = .float → type.qualities.short = false
  signless : type.kind = .string ∨ type.kind = .struct → type.qualities.hasSign = false
  struct : type.kind = .struct → type.qualities.hasWidth = false
  static : type.kind = .string → type.qualities.static = true → type.qualities.const = true
  managed : type.kind = .reference → type.qualities.managed = true

/-- The policy for allocated variables: strings have no width either. -/
structure Allocatable (type : DataType) : Prop extends Admitted type where
  string : type.kind = .string → type.qualities.hasWidth = false

/-- A string with a width. -/
def IsSizedString (type : DataType) : Prop :=
  type.kind = .string ∧ type.qualities.hasWidth = true

/-- The check lets through what is admitted. -/
theorem isValid_iff : type.isValid = true ↔ type.Admitted := by
  constructor
  · intro h
    constructor <;> intro hkind
    case signless => rcases hkind with hkind | hkind <;> simp_all [isValid]
    case static =>
      intro hset
      have hboth : type.qualities.hasSign = false ∧ type.qualities.const = true := by
        simpa [isValid, hkind, hset] using h
      exact hboth.2
    all_goals simp_all [isValid, QualitySet.hasWidth]
  · rintro ⟨hfloat, hsign, hstruct, hstatic, hmanaged⟩
    unfold isValid
    cases hkind : type.kind <;> simp_all [QualitySet.hasWidth]
    cases hset : type.qualities.static <;> simp_all

/-- Of what is admitted, strings with a width are all that the policy forbids. -/
theorem Admitted.allocatable_iff (h : type.Admitted) :
    type.Allocatable ↔ ¬type.IsSizedString := by
  refine ⟨fun hallocatable hsized => ?_, fun hsized => ⟨h, fun hkind => ?_⟩⟩
  · exact absurd hsized.2 (by simp [hallocatable.string hsized.1])
  · exact Bool.eq_false_iff.mpr fun hwidth => hsized ⟨hkind, hwidth⟩

/-- A type is admitted, and the policy forbids it only if it is a string with a width. -/
structure Checked (type : DataType) : Prop where
  admitted : type.Admitted
  allocatable : type.Allocatable ↔ ¬type.IsSizedString

theorem checked_of_isValid (h : type.isValid = true) : type.Checked :=
  have hadmitted := isValid_iff.mp h
  ⟨hadmitted, hadmitted.allocatable_iff⟩

end DataType

/-- A variable that is allocated has a type that satisfies `q`. -/
def Form.Allocates (q : DataType → Prop) : Form → Prop
  | .allocation type _ _ => q type
  | _ => True

namespace Node

/-- The types of all variables that a tree allocates satisfy `q`. -/
def Allocates (q : DataType → Prop) : Node → Prop
  | .statement s => s.form.Allocates q
  | .type _ | .expression _ | .block _ => True

variable {word : Token → Prop} {name : String → Prop}

/-- What every type satisfies that the check lets through, allocated types satisfy. -/
theorem statementsInherit_allocates {q : DataType → Prop}
    (hq : ∀ type : DataType, type.isValid = true → q type) :
    StatementsInherit word name (Allocates q) where
  toExpressionsInherit := expressionsInherit_of_forall (fun _ => trivial) fun _ => trivial
  block _ := trivial
  includeFile _ _ := trivial
  structType _ := trivial
  declaration _ _ _ _ _ _ _ := trivial
  allocation _ valid _ _ _ := hq _ valid
  assignment _ _ _ := trivial
  compoundAssignment _ _ _ _ := trivial
  movement _ _ _ := trivial
  returnValue _ _ := trivial
  ifThen _ _ _ := trivial
  ifElse _ _ _ _ := trivial
  whileLoop _ _ _ := trivial
  functionDefinition _ _ _ _ _ _ := trivial
  structDefinition _ _ _ := trivial
  scopedBlock _ _ := trivial
  callStatement _ _ _ := trivial
  constructStatement _ _ _ := trivial

end Node

/-! ## Programs -/

/-- All allocations of a program, at any depth and whatever qualities stand around their types, are
    of admitted types, and of types that the policy allows unless they allocate a string with a
    width. This holds of a program that is read at once and of one that is compiled. -/
theorem allocations_of_program {options : Compilation.Options} {s later : Session} {text : String}
    {program : Block} {output : Compilation.Output} :
    (Parser.program s = .ok program later →
      program.Throughout (Node.Allocates DataType.Checked)) ∧
    (Compilation.ofSession options s = .ok output →
      output.program.Throughout (Node.Allocates DataType.Checked)) ∧
    (Compilation.ofText options text = .ok output →
      output.program.Throughout (Node.Allocates DataType.Checked)) := by
  obtain ⟨hread, hcompiled⟩ := Compilation.throughout_of_inherits
    (Node.statementsInherit_allocates fun _ => DataType.checked_of_isValid)
  exact ⟨fun hrun => hread hrun, fun hrun => hcompiled.1 hrun, fun hrun => hcompiled.2 hrun⟩

/-- In a branch a static string is made constant behind its name, and a float that was short is
    made long. -/
theorem allocations_of_program_branch :
    ∃ session later program output,
      Session.ofText
        "if (a) \x7b alloc static string s & const: b; alloc short float f & long; \x7d"
        = .ok session ∧
      Parser.program session = .ok program later ∧ program.size = 1 ∧
      program.Throughout (Node.Allocates DataType.Checked) ∧
      Compilation.ofText {}
        "if (a) \x7b alloc static string s & const: b; alloc short float f & long; \x7d"
        = .ok output ∧ output.program.Throughout (Node.Allocates DataType.Checked) := by
  obtain ⟨session, later, program, output, hsession, hprogram, hsize, houtput⟩ :=
    Compilation.exists_of_programOf?_isOk
      "if (a) \x7b alloc static string s & const: b; alloc short float f & long; \x7d"
      (·.size == 1) (by decide +kernel) (by decide +kernel)
  obtain ⟨hread, -, hcompiled⟩ := @allocations_of_program {} session later _ program output
  exact ⟨session, later, program, output, hsession, hprogram, beq_iff_eq.mp hsize, hread hprogram,
    houtput, hcompiled houtput⟩

/-- Whether a statement allocates a string with a width. -/
def Statement.allocatesSizedString : Statement → Bool
  | ⟨.allocation type _ _, _⟩ => type.kind == .string && type.qualities.hasWidth
  | _ => false

theorem Statement.not_allocates {statement : Statement}
    (h : statement.allocatesSizedString = true) :
    ¬statement.form.Allocates DataType.Allocatable := by
  unfold allocatesSizedString at h
  split at h
  next type _ _ _ =>
    rw [Bool.and_eq_true, beq_iff_eq] at h
    exact fun hallocatable : type.Allocatable =>
      hallocatable.toAdmitted.allocatable_iff.mp hallocatable h
  next => cases h

/-- A long string is allocated, although the policy forbids it. -/
theorem not_allocatable_of_program :
    ∃ session later program, Session.ofText "alloc long string s;" = .ok session ∧
      Parser.program session = .ok program later ∧
      ¬program.Throughout (Node.Allocates DataType.Allocatable) := by
  have hsized : (Parser.programOf? "alloc long string s;").any
      (·.statements.any Statement.allocatesSizedString) = true := by
    decide +kernel
  obtain ⟨session, later, program, hsession, hrun, hany⟩ := Parser.exists_of_programOf? _ _ hsized
  refine ⟨session, later, program, hsession, hrun, fun hpolicy => ?_⟩
  obtain ⟨statement, hmem, hstatement⟩ := List.any_eq_true.mp hany
  exact statement.not_allocates hstatement (hpolicy.of_mem hmem).here

end SinFrontend
