import SinFrontend.Proofs.Trees.Sessions
import SinFrontend.Proofs.Trees.Statements
import SinFrontend.Proofs.Types.Parts

/-!
# Types are well made

Every type inside a tree that is read from a text has what its kind asks for, however it came about:
written out, put in for a literal or for the attribute of a value, and under qualities that were
layered on it later.

* `QualitySet.Coherent`: no set is `const` and `final`, or `long` and `short`, at once.
* `DataType.WellMade`: what a kind asks of a type.
* `Node.statementsInherit_wellMade`: types are well made if the types inside them are.
* `wellMade_of_ofText`: all types in what is read from a text are.
-/

namespace SinFrontend

/-! ## Coherent sets of qualities -/

namespace QualitySet

/-- A set whose qualities do not contradict each other. -/
structure Coherent (set : QualitySet) : Prop where
  consistent : set.Consistent
  width : ¬(set.long = true ∧ set.short = true)

variable {set grown : QualitySet} {quality : Quality}

theorem coherent_empty : empty.Coherent :=
  ⟨by decide, by decide⟩

/-- A quality that is added contradicts no other one, and a sign that was chosen stays chosen. -/
theorem Coherent.add (h : set.Coherent) (hadded : set.add quality = .ok grown) :
    grown.Coherent ∧ (set.hasSign = true → grown.hasSign = true) := by
  obtain ⟨hconsistent, hwidth⟩ := h
  unfold Consistent at hconsistent
  cases quality <;> simp only [QualitySet.add] at hadded
  case const =>
    split at hadded
    · cases hadded
    · cases hadded
      exact ⟨⟨by simp_all [Consistent], hwidth⟩, id⟩
  case final =>
    split at hadded
    · cases hadded
    · cases hadded
      exact ⟨⟨by simp_all [Consistent], hwidth⟩, id⟩
  case long =>
    cases hadded
    exact ⟨⟨hconsistent, by simp⟩, id⟩
  case short =>
    cases hadded
    exact ⟨⟨hconsistent, by simp⟩, id⟩
  case signed | unsigned =>
    cases hadded
    exact ⟨⟨hconsistent, hwidth⟩, fun _ => by simp [hasSign]⟩
  all_goals
    cases hadded
    exact ⟨⟨hconsistent, hwidth⟩, id⟩

theorem Coherent.addEach (h : set.Coherent) (qualities : List Quality) :
    (set.addEach qualities).1.Coherent ∧
      (set.hasSign = true → (set.addEach qualities).1.hasSign = true) :=
  addEach_induction (p := fun grown => grown.Coherent ∧ (set.hasSign = true → grown.hasSign = true))
    (fun hset hadded => ⟨(hset.1.add hadded).1, (hset.1.add hadded).2 ∘ hset.2⟩) ⟨h, id⟩ qualities

theorem Grown.coherent (h : set.Grown) : set.Coherent := by
  induction h with
  | empty => exact coherent_empty
  | add _ hadded ih => exact (ih.add hadded).1

end QualitySet

/-! ## Well-made types -/

/-- The types that a kind contains: one behind a pointer, a reference or an array, a character in a
    string, at least one in a tuple, and none elsewhere. -/
def PrimaryKind.Contains (kind : PrimaryKind) (types : List DataType) : Prop :=
  match kind with
  | .ptr | .reference | .array => ∃ type, types = [type]
  | .string => ∃ type, types = [type] ∧ type.kind = .char
  | .tuple => types ≠ []
  | _ => types = []

namespace DataType

/-- What a kind asks of a type. -/
structure WellMade (type : DataType) : Prop where
  contains : type.kind.Contains type.contained
  struct : type.kind = .struct → ∃ name, name ≠ "" ∧ type.structName = some name
  unnamed : type.kind ≠ .struct → type.structName = none
  coherent : type.qualities.Coherent
  sign : type.kind = .int → type.qualities.hasSign = true

variable {type layered : DataType} {qualities : QualitySet} {kind : PrimaryKind}
  {contained : List DataType}

theorem coherent_impliedQualities (kind : PrimaryKind) (h : qualities.Coherent) :
    (impliedQualities kind qualities).Coherent :=
  ⟨consistent_impliedQualities kind h.consistent, by cases kind <;> exact h.width⟩

/-- An integer that is not said to be unsigned is signed. -/
theorem wellMade_make {length : ArrayLength} (hcontains : kind.Contains contained)
    (hstruct : kind ≠ .struct) (h : qualities.Coherent) :
    (make kind contained qualities length none).WellMade where
  contains := hcontains
  struct h := absurd h hstruct
  unnamed _ := rfl
  coherent := coherent_impliedQualities kind h
  sign hint := by
    subst hint
    show (qualities.signed || !qualities.unsigned || qualities.unsigned) = true
    cases qualities.signed <;> cases qualities.unsigned <;> rfl

theorem wellMade_ofKind (hkind : kind ∉ [.ptr, .reference, .array, .tuple, .struct])
    (h : qualities.Coherent) : (ofKind kind qualities).WellMade := by
  have hcontains : kind.Contains
      (if kind == .string then [make .char [] .empty .unspecified none] else []) := by
    cases kind <;> simp_all [PrimaryKind.Contains, make]
  exact wellMade_make hcontains (by rintro rfl; simp at hkind) h

theorem wellMade_structNamed {name : String} (hname : name ≠ "") (h : qualities.Coherent) :
    (structNamed name qualities).WellMade where
  contains := rfl
  struct _ := ⟨name, hname, rfl⟩
  unnamed h := absurd rfl h
  coherent := h
  sign := nofun

/-- Qualities may be layered on a type as often as one likes. -/
theorem WellMade.addQualities (h : type.WellMade) (qualities : QualitySet) :
    (type.addQualities qualities).1.WellMade where
  contains := h.contains
  struct := h.struct
  unnamed := h.unnamed
  coherent := (h.coherent.addEach qualities.listed).1
  sign hint := (h.coherent.addEach qualities.listed).2 (h.sign hint)

end DataType

/-! ## Words that name types -/

theorem PrimaryKind.word_ofName {text : String} (h : ofName text ≠ .struct) :
    (ofName text).word = text := by
  unfold ofName at h ⊢
  split at h <;> first | rfl | exact absurd rfl h

/-- A word that is read as a simple type names none that contains others. -/
theorem Token.Lexed.ofName_notMem {token : Token} (h : token.Lexed)
    (hkind : token.kind = .keyword ∨ token.kind = .identifier)
    (hptr : token.isKeyword "ptr" = false) (hreference : token.hasForm .identifier "ref" = false)
    (harray : token.isKeyword "array" = false) (htuple : token.isKeyword "tuple" = false)
    (hstruct : PrimaryKind.ofName token.text ≠ .struct) :
    PrimaryKind.ofName token.text ∉ [.ptr, .reference, .array, .tuple, .struct] := by
  have htext := PrimaryKind.word_ofName hstruct
  -- the words of pointers, arrays and tuples are reserved, that of references is not
  have hreserved {word : String} (hother : token.isKeyword word = false)
      (hword : Token.isReserved word = true) : token.text ≠ word := by
    rintro rfl
    rcases hkind with hkind | hkind
    · simp [Token.isKeyword, Token.hasForm, hkind] at hother
    · simp [(h.identifier hkind).2] at hword
  have hfree : token.text ≠ "ref" := by
    intro href
    rcases hkind with hkind | hkind
    · exact absurd (href ▸ h.keyword hkind) (by decide)
    · simp [Token.hasForm, hkind, href] at hreference
  simp only [List.mem_cons, List.not_mem_nil, or_false, not_or]
  refine ⟨fun hof => ?_, fun hof => ?_, fun hof => ?_, fun hof => ?_, hstruct⟩
  · exact hreserved hptr (by decide) (by rw [← htext, hof]; rfl)
  · exact hfree (by rw [← htext, hof]; rfl)
  · exact hreserved harray (by decide) (by rw [← htext, hof]; rfl)
  · exact hreserved htuple (by decide) (by rw [← htext, hof]; rfl)

theorem IsIdentifier.ne_empty {text : String} (h : IsIdentifier text) : text ≠ "" := by
  rintro rfl
  obtain ⟨c, rest, htext, -, -⟩ := h
  cases htext

/-! ## Trees -/

namespace Node

/-- All types are well made, and so are the sets of qualities that expressions keep themselves. -/
def WellMade : Node → Prop
  | .type t => t.WellMade
  | .expression (.list _ _ qualities _) | .expression (.attributeName _ qualities _) =>
    qualities.Coherent
  | _ => True

/-- Types that are read are well made. -/
theorem typesInherit_wellMade : TypesInherit Token.Lexed WellMade where
  builtin read kind ptr reference array tuple struct grown :=
    DataType.wellMade_ofKind (read.ofName_notMem kind ptr reference array tuple struct)
      grown.coherent
  character := DataType.wellMade_make rfl nofun QualitySet.coherent_empty
  struct read kind _ grown :=
    DataType.wellMade_structNamed (read.identifier kind).1.ne_empty grown.coherent
  pointer _ grown := DataType.wellMade_make ⟨_, rfl⟩ nofun grown.coherent
  reference _ grown := DataType.wellMade_make ⟨_, rfl⟩ nofun grown.coherent
  array _ _ grown := DataType.wellMade_make ⟨_, rfl⟩ nofun grown.coherent
  tuple some _ grown := DataType.wellMade_make some nofun grown.coherent
  layered {type layered qualities} inType _ added := by
    have hlayered : layered = (type.addQualities qualities).1 := by rw [added]
    rw [hlayered]
    exact inType.here.addQualities qualities

theorem wellMade_attributeType : Parser.attributeType.WellMade :=
  DataType.wellMade_ofKind (by decide) ⟨by decide, by decide⟩

/-- So are the types in expressions. -/
theorem expressionsInherit_wellMade : ExpressionsInherit Token.Lexed WellMade where
  toTypesInherit := typesInherit_wellMade
  literalType {kind} kinds := by
    refine DataType.wellMade_ofKind ?_ ⟨by decide, by decide⟩
    revert kinds
    cases kind <;> decide
  literal _ _ := trivial
  identifier _ _ := trivial
  unary _ _ := trivial
  binary _ _ _ := trivial
  indexed _ _ := trivial
  procedure _ _ := trivial
  call _ := trivial
  construction _ _ _ := trivial
  emptyList _ := QualitySet.coherent_empty
  list _ _ _ := QualitySet.coherent_empty
  typeName _ := trivial
  attributeName _ := QualitySet.coherent_empty
  selectedType {qualities type} added := by
    have htype : type = (Parser.attributeType.addQualities qualities).1 := by rw [added]
    rw [htype]
    exact wellMade_attributeType.addQualities qualities
  attributeSelection _ _ _ := trivial
  typecast _ _ := trivial
  constant {expression} inExpression _ := by
    have here := inExpression.here
    cases expression <;> exact here
  overridden {expression layered qualities} inExpression _ added := by
    have here := inExpression.here
    cases expression with
    | list kind elements own constant =>
      obtain ⟨rfl, -⟩ := Prod.mk.inj added
      exact (QualitySet.Coherent.addEach here _).1
    | attributeName attr own constant =>
      obtain ⟨rfl, -⟩ := Prod.mk.inj added
      exact (QualitySet.Coherent.addEach here _).1
    | literal | typeName | attributeSelection =>
      obtain ⟨rfl, -⟩ := Prod.mk.inj added
      trivial
    | _ => simp [Expression.overrideQualities] at added

/-- So are the types in statements. -/
theorem statementsInherit_wellMade : StatementsInherit Token.Lexed IsIdentifier WellMade where
  toExpressionsInherit := expressionsInherit_wellMade
  structType named := DataType.wellMade_structNamed named.ne_empty QualitySet.coherent_empty
  block _ := trivial
  includeFile _ _ := trivial
  declaration _ _ _ _ _ _ _ := trivial
  allocation _ _ _ _ _ := trivial
  assignment _ _ _ := trivial
  compoundAssignment _ _ _ _ := trivial
  movement _ _ _ := trivial
  returnValue _ _ := trivial
  ifThen _ _ _ := trivial
  ifElse _ _ _ _ := trivial
  whileLoop _ _ _ := trivial
  functionDefinition _ _ _ _ _ _ := trivial
  structDefinition _ _ _ := trivial
  scopedBlock _ _ := trivial
  callStatement _ _ _ := trivial
  constructStatement _ _ _ := trivial

end Node

/-! ## Texts -/

/-- All types inside what is read from a text are well made: inside expressions, statements, blocks
    and programs, whatever was asked of the parser before, and inside the program of a
    compilation. -/
theorem wellMade_of_ofText {text : String} {tokens : List Token}
    (htext : Token.ofText text = .ok tokens) :
    (∀ s later : Session, Parser.Reachable tokens s →
      (∀ context expression, Parser.expression context s = .ok expression later →
        expression.Throughout Node.WellMade) ∧
      (∀ statement, Parser.topLevelStatement s = .ok (some statement) later →
        statement.Throughout Node.WellMade) ∧
      (∀ block, Parser.statementBlock s = .ok block later → block.Throughout Node.WellMade) ∧
      ∀ program, Parser.program s = .ok program later → program.Throughout Node.WellMade) ∧
    ∀ options output, Compilation.ofText options text = .ok output →
      output.program.Throughout Node.WellMade := by
  have hkept := Session.kept_lexed
  have hinherits := Node.statementsInherit_wellMade
  refine ⟨fun s later hreachable => ?_, fun options output hrun => ?_⟩
  · have hs := hreachable.lexed (Token.lexed_ofText htext)
    refine ⟨fun context expression hrun => ?_, fun statement hrun => ?_, fun block hrun => ?_,
      fun program hrun => ?_⟩
    · exact (Parser.makes_expression hkept hinherits context hs hrun).1
    · exact ((Parser.makes_topLevelStatement hkept hinherits hs hrun).1 statement rfl).1
    · exact (Parser.makes_statementBlock hkept hinherits hs hrun).1
    · exact (Parser.makes_program hkept hinherits hs hrun).1
  · have hs := Session.lexed_ofTokens (Token.lexed_ofText htext)
    have hrecovers {s failed : Session} {error : CompileError} (hs : s.Lexed)
        (hfails : Parser.topLevelStatement s = .error (.rejected error) failed) :
        failed.synchronize.Lexed :=
      Session.preserved_lexed.synchronize
        ((Parser.topLevelStatement_preserves Session.preserved_lexed hs).2 error failed hfails)
    rw [Compilation.ofText_of_tokens htext] at hrun
    exact Compilation.throughout_program hkept hinherits hrecovers hs hrun

/-- In this text a pointer to an unsigned integer is made constant behind its name, and a string
    and a cast contain types as well. -/
theorem wellMade_of_ofText_pointer :
    ∃ tokens later program output,
      Token.ofText "decl ptr<unsigned int> x & const; alloc string s: 2 as string;" = .ok tokens ∧
      Parser.program (.ofTokens tokens) = .ok program later ∧ program.size = 2 ∧
      program.Throughout Node.WellMade ∧
      Compilation.ofText {} "decl ptr<unsigned int> x & const; alloc string s: 2 as string;" =
        .ok output ∧
      output.program.Throughout Node.WellMade := by
  obtain ⟨session, later, program, output, hsession, hprogram, hsize, houtput⟩ :=
    Compilation.exists_of_programOf?_isOk
      "decl ptr<unsigned int> x & const; alloc string s: 2 as string;"
      (·.size == 2) (by decide +kernel) (by decide +kernel)
  obtain ⟨tokens, htokens, rfl⟩ := Session.exists_tokens_of_ofText hsession
  obtain ⟨hrequests, hcompiles⟩ := wellMade_of_ofText htokens
  exact ⟨tokens, later, program, output, htokens, hprogram, beq_iff_eq.mp hsize,
    (hrequests _ later .start).2.2.2 program hprogram, houtput, hcompiles {} output houtput⟩

end SinFrontend
