import SinFrontend.Parser.Descent
import SinFrontend.Proofs.Trees.Inheritance
import SinFrontend.Proofs.Trees.Makes

/-!
# Types that are read

A property that types inherit holds throughout the types that the rules make, as long as it holds
throughout what the readings that they ask for make.

* `Parser.MakesAll`: what the readings that a rule may ask for make.
* `Parser.StepsKeep`: the steps that types and parts are read in keep a property of sessions.
* `makes_typeNameRule`, `makes_tupleMembers`: what the rules of types make of them.
-/

namespace SinFrontend

namespace Parser

variable {inv : Session → Prop} {word : Token → Prop} {name : String → Prop} {p : Node → Prop}
  {parse : Descent}

/-- A statement that has `p` throughout, stands on a line, and has no value unless it is a
    parameter. -/
structure MadeOn (p : Node → Prop) (isParameter : Bool) (line : ℕ) (statement : Statement) :
    Prop where
  throughout : statement.Throughout p
  bare : isParameter = false → statement.isInitialized = false
  line_eq : statement.line = line

/-- Readings that make only types, and parts of types and expressions, that have `p` throughout. -/
structure MakesParts (inv : Session → Prop) (p : Node → Prop) (parse : Descent) : Prop where
  typeName : Makes inv (DataType.Throughout p) (parse .typeName)
  members : Makes inv (fun types => ∀ type ∈ types, type.Throughout p) (parse .members)
  expression : ∀ context, Makes inv (Expression.Throughout p) (parse (.expression context))
  elements : ∀ context, Makes inv (fun elements => ∀ element ∈ elements, element.Throughout p)
    (parse (.elements context))
  initializers : Makes inv (fun initializers => ∀ initializer ∈ initializers,
    ∀ part ∈ initializer.parts, part.Everywhere p) (parse .initializers)

/-- Readings that make only trees that have `p` throughout. An element is read behind a comma.
    Parameters are declarations, and no other statement is a declaration with a value. -/
structure MakesAll (inv : Session → Prop) (p : Node → Prop) (parse : Descent) : Prop
    extends MakesParts inv p parse where
  operations : ∀ {left : Expression}, left.Throughout p → ∀ floor context,
    Makes inv (Expression.Throughout p) (parse (.operations left floor context))
  elements_ne_nil : ∀ (context : Context) {s later : Session} {elements : List Expression},
    parse (.elements context) s = .ok elements later →
      s.cursor.current.isPunctuation "," = true → elements ≠ []
  statement : ∀ isParameter, Makes inv (fun read => ∀ statement, read = some statement →
    ∃ line, MadeOn p isParameter line statement) (parse (.statement isParameter))
  statements : Makes inv (fun entries => ∀ statement ∈ entries.filterMap (·.1),
    statement.Throughout p ∧ statement.isInitialized = false) (parse .statements)
  parameters : Makes inv (fun params => ∀ param ∈ params,
    param.Throughout p ∧ param.isDeclaration = true) (parse .parameters)

/-- The steps that types, elements and initializers are read in keep `inv`. The words that begin
    types satisfy `word`. -/
structure StepsKeep (inv : Session → Prop) (word : Token → Prop) : Prop where
  quality {set : QualitySet} (grown : set.Grown) : Makes inv QualitySet.Grown (addQuality set)
  operator {symbol : String} (mem : symbol ∈ ["&", "<", ":"]) : Keeps inv (takeOperator symbol)
  comma : Keeps inv (takePunctuation ",")
  closing : Keeps inv expectClosingAngle
  head {good : DataType → Prop} {f : Token → Parser DataType}
    (accepts : ∀ {token s type later}, f token s = .ok type later →
      token.kind = .keyword ∨ token.kind = .identifier)
    (made : ∀ token, word token → Makes inv good (f token)) : Makes inv good (advance >>= f)
  note (diagnostic : Diagnostic) : Keeps inv (record diagnostic)

/-! ## Steps -/

theorem StepsKeep.of_kept (kept : Session.Kept inv word name) : StepsKeep inv word where
  quality hset := by
    intro s grown later hs hrun
    obtain ⟨_, -, hadded, rfl⟩ := addQuality_ok hrun
    exact ⟨.add hset hadded, kept.advance hs⟩
  operator _ := Keeps.take kept _
  comma := Keeps.take kept _
  closing := by
    intro s _ later hs hrun
    obtain ⟨hclosing, rfl | ⟨_, _, -, -, rfl⟩⟩ := expectClosingAngle_ok hrun
    · exact ⟨trivial, kept.advance hs⟩
    · exact ⟨trivial, kept.split hs hclosing _⟩
  head _ made := (makes_advance kept).bind made
  note _ := Keeps.record kept _

/-! ## Qualities -/

section Qualities

variable (hquality : ∀ {set : QualitySet}, set.Grown → Makes inv QualitySet.Grown (addQuality set))

include hquality

theorem makes_qualitiesWhile (test : Token → Bool) :
    Makes inv QualitySet.Grown (qualitiesWhile test) := by
  suffices hfold : ∀ (words : List Token) {set : QualitySet}, set.Grown → Makes inv QualitySet.Grown
      (words.foldlM (fun qualities _ => addQuality qualities) set) from
    fun s set later hs hrun => hfold (s.cursor.ahead.takeWhile test) .empty hs hrun
  intro words
  induction words with
  | nil => exact .pure
  | cons next words ih => exact fun hset => (hquality hset).bind fun _ => ih

theorem makes_postfixedQualities : Makes inv QualitySet.Grown postfixedQualities :=
  Keeps.peek.bind fun _ _ =>
    .ite (fun _ => makes_qualitiesWhile hquality _) fun _ => .reject

end Qualities

/-! ## Types -/

section Types

variable (keep : StepsKeep inv word) (inherits : Node.TypesInherit word p)

section

include inherits

/-- A type under further qualities has the same parts. -/
theorem throughout_layered {type layered : DataType} {qualities : QualitySet}
    (htype : type.Throughout p) (hgrown : qualities.Grown)
    (hadded : type.addQualities qualities = (layered, none)) : layered.Throughout p := by
  have hlayered : layered = (type.addQualities qualities).1 := by rw [hadded]
  exact htype.of_parts (inherits.layered htype hgrown hadded) (by rw [hlayered]; rfl)

theorem throughout_ofKind {kind : PrimaryKind} {qualities : QualitySet}
    (here : p (.type (.ofKind kind qualities))) :
    (DataType.ofKind kind qualities).Throughout p := by
  refine .intro here fun part hpart => ?_
  by_cases hstring : kind = .string
  · subst hstring
    rw [List.mem_singleton.mp hpart]
    exact .intro inherits.character nofun
  · simp [Node.parts, DataType.parts, DataType.ofKind, DataType.make, hstring,
      ArrayLength.parts] at hpart

end

include keep inherits

theorem makes_withPostfixedQualities {type : DataType} (htype : type.Throughout p) :
    Makes inv (DataType.Throughout p) (withPostfixedQualities type) := by
  refine (keep.operator (.head _)).bind fun _ _ => .ite (fun _ => ?_) fun _ => .pure htype
  refine Keeps.previousLine.bind fun _ _ => ?_
  refine (makes_postfixedQualities keep.quality).bind fun _ hgrown => ?_
  split
  next hadded => exact .pure (throughout_layered inherits htype hgrown hadded)
  next => exact .reject

omit inherits in
theorem Keeps.expectOpeningAngle (rule : String) (line : ℕ) :
    Keeps inv (expectOpeningAngle rule line) :=
  (keep.operator (.tail _ (.head _))).bind fun _ _ => .ite (fun _ => .pure trivial) fun _ => .reject

omit keep in
/-- The words that bring types with them are told apart before a simple type is read. -/
theorem makes_simpleType {token : Token} {qualities : QualitySet} (read : word token)
    (ptr : ¬token.isKeyword "ptr" = true) (reference : ¬token.hasForm .identifier "ref" = true)
    (array : ¬token.isKeyword "array" = true) (tuple : ¬token.isKeyword "tuple" = true)
    (hgrown : qualities.Grown) :
    Makes inv (DataType.Throughout p) (simpleType token qualities) := by
  refine .ite (fun hword => ?_) fun _ => .reject
  have hkind : token.kind = .keyword ∨ token.kind = .identifier := by simpa using hword
  cases hname : PrimaryKind.ofName token.text with
  | struct =>
    refine .ite (fun _ => .reject) fun hother => .pure (.intro ?_ nofun)
    exact inherits.struct read (hkind.resolve_left (by simpa using hother)) hname hgrown
  | _ =>
    refine .pure (throughout_ofKind inherits ?_)
    rw [← hname]
    exact inherits.builtin read hkind (by simpa using ptr) (by simpa using reference)
      (by simpa using array) (by simpa using tuple) (by simp [hname]) hgrown

omit inherits in
theorem Keeps.noteVainQualities (type : DataType) (line : ℕ) :
    Keeps inv (noteVainQualities type line) := by
  refine (Keeps.forM (fun _ => keep.note _) _).bind fun _ _ => ?_
  exact .ite (fun _ => keep.note _) fun _ => .pure trivial

variable (made : MakesParts inv p parse)

include made

theorem makes_containedType : Makes inv (DataType.Throughout p) (containedType parse) :=
  made.typeName.bind fun _ htype => makes_withPostfixedQualities keep inherits htype

theorem makes_enclosedType : Makes inv (DataType.Throughout p) (enclosedType parse) :=
  (makes_containedType keep inherits made).bind fun _ htype =>
    keep.closing.bind fun _ _ => .pure htype

theorem makes_indirectType {make : DataType → DataType}
    (hmake : ∀ target : DataType, target.Throughout p → (make target).Throughout p) (line : ℕ) :
    Makes inv (DataType.Throughout p) (indirectType parse make line) :=
  (Keeps.expectOpeningAngle keep _ line).bind fun _ _ =>
    (makes_enclosedType keep inherits made).bind fun target htarget => .pure (hmake target htarget)

theorem makes_arrayType {qualities : QualitySet} (hgrown : qualities.Grown) (line : ℕ) :
    Makes inv (DataType.Throughout p) (arrayType parse qualities line) := by
  have helement {length : ArrayLength} (hlength : ∀ part ∈ length.parts, part.Everywhere p) :
      Makes inv (DataType.Throughout p)
        (do return DataType.arrayOf (← enclosedType parse) length qualities) :=
    (makes_enclosedType keep inherits made).bind fun element helement =>
      .pure (.intro (inherits.array helement hlength hgrown)
        (List.forall_mem_cons.mpr ⟨helement, hlength⟩))
  refine (Keeps.expectOpeningAngle keep _ line).bind fun _ _ => Keeps.peek.bind fun _ _ => ?_
  refine .ite (fun _ => helement nofun) fun _ => ?_
  refine (made.expression {}).bind fun length hlength => ?_
  have hparts : ∀ part ∈ (ArrayLength.ofExpression length).parts, part.Everywhere p := by
    unfold ArrayLength.ofExpression
    split
    · split
      · exact nofun
      · exact List.forall_mem_singleton.mpr hlength
    · exact List.forall_mem_singleton.mpr hlength
  refine keep.comma.bind fun _ _ => .ite (fun _ => helement hparts) fun _ => .reject_bind

theorem makes_tupleMembers :
    Makes inv (fun types => ∀ type ∈ types, type.Throughout p) (tupleMembers parse) := by
  refine Keeps.peek.bind fun _ _ => .ite (fun _ => ?_) fun _ => .pure nofun
  refine (makes_containedType keep inherits made).bind fun member hmember => ?_
  have hmore : Makes inv (fun types => ∀ type ∈ types, type.Throughout p)
      (do return member :: (← parse .members)) :=
    made.members.bind fun _ hmembers => .pure (List.forall_mem_cons.mpr ⟨hmember, hmembers⟩)
  refine keep.comma.bind fun _ _ => .ite (fun _ => hmore) fun _ => ?_
  exact Keeps.peek.bind fun _ _ => .ite (fun _ => hmore) fun _ => .reject_bind

theorem makes_tupleType {qualities : QualitySet} (hgrown : qualities.Grown) (line : ℕ) :
    Makes inv (DataType.Throughout p) (tupleType parse qualities line) := by
  refine (Keeps.expectOpeningAngle keep _ line).bind fun _ _ => ?_
  refine made.members.bind fun members hmembers => ?_
  refine keep.closing.bind fun _ _ => ?_
  have htuple (hsome : members ≠ []) : (DataType.tupleOf members qualities).Throughout p := by
    refine .intro (inherits.tuple hsome hmembers hgrown) fun part hpart => ?_
    obtain ⟨member, hmember, rfl⟩ : ∃ member ∈ members, Node.type member = part := by
      simpa [Node.parts, DataType.parts, DataType.tupleOf, DataType.make, ArrayLength.parts]
        using hpart
    exact hmembers member hmember
  split
  · exact .reject_bind
  · exact (keep.note _).bind fun _ _ => .pure (htuple (List.cons_ne_nil _ _))
  next hnil _ => exact .pure (htuple hnil)

theorem makes_typeFrom {qualities : QualitySet} (hgrown : qualities.Grown) {token : Token}
    (read : word token) : Makes inv (DataType.Throughout p) (typeFrom parse qualities token) := by
  refine .ite (fun _ => ?_) fun hptr => .ite (fun _ => ?_) fun href => .ite (fun _ => ?_)
    fun harray => .ite (fun _ => ?_) fun htuple => ?_
  · exact makes_indirectType keep inherits made (fun _ htarget =>
      .intro (inherits.pointer htarget hgrown) (List.forall_mem_singleton.mpr htarget)) _
  · exact makes_indirectType keep inherits made (fun _ htarget =>
      .intro (inherits.reference htarget hgrown) (List.forall_mem_singleton.mpr htarget)) _
  · exact makes_arrayType keep inherits made hgrown _
  · exact makes_tupleType keep inherits made hgrown _
  · exact makes_simpleType inherits read hptr href harray htuple hgrown

omit keep inherits made in
/-- A type begins with a word. -/
theorem kind_of_typeFrom {qualities : QualitySet} {token : Token} {s later : Session}
    {type : DataType} (hrun : typeFrom parse qualities token s = .ok type later) :
    token.kind = .keyword ∨ token.kind = .identifier := by
  by_contra hother
  rw [not_or] at hother
  simp [typeFrom, Token.isKeyword, Token.hasForm, simpleType, hother] at hrun

theorem makes_typeNameRule : Makes inv (DataType.Throughout p) (typeNameRule parse) := by
  refine Keeps.currentLine.bind fun line _ => ?_
  refine (makes_qualitiesWhile keep.quality _).bind fun _ hgrown => ?_
  refine keep.head (fun hrun => ?_) fun token hword => ?_
  · obtain ⟨_, _, htype, -⟩ := exists_of_bind hrun
    exact kind_of_typeFrom htype
  · refine (makes_typeFrom keep inherits made hgrown hword).bind fun type htype => ?_
    exact (Keeps.noteVainQualities keep type line).bind fun _ _ => .pure htype

end Types

end Parser

end SinFrontend
