import SinFrontend.Proofs.Trees.Types

/-!
# Expressions that are read

A property that expressions inherit holds throughout the expressions that the rules make, as long as
it holds throughout what the readings that they ask for make.

* `makes_expressionRule`, `makes_operationsRule`: what the rules of expressions make.
* `makes_construction`: what a construction is made of.
-/

namespace SinFrontend

@[simp] theorem Expression.isConst_setConst (expression : Expression) (constant : Bool) :
    (expression.setConst constant).isConst = constant := by
  cases expression <;> rfl

@[simp] theorem Expression.parts_setConst (expression : Expression) (constant : Bool) :
    (expression.setConst constant).parts = expression.parts := by
  cases expression <;> rfl

namespace Parser

variable {inv : Session → Prop} {word : Token → Prop} {name : String → Prop} {p : Node → Prop}
  {parse : Descent}

/-! ## Nodes -/

section Nodes

variable (inherits : Node.ExpressionsInherit word p)

include inherits

theorem throughout_literal {kind : PrimaryKind}
    (kinds : kind ∈ [.int, .float, .string, .char, .bool, .void]) (value : String) :
    (Expression.ofLiteral kind value).Throughout p :=
  .intro (inherits.literal kinds value) (List.forall_mem_singleton.mpr
    (throughout_ofKind inherits.toTypesInherit (inherits.literalType kinds)))

theorem throughout_procedure {target : Expression} {args : List Expression}
    (htarget : target.Throughout p) (hargs : ∀ arg ∈ args, arg.Throughout p) :
    (Expression.procedure target args false).Throughout p :=
  .intro (inherits.procedure htarget hargs)
    (List.forall_mem_cons.mpr ⟨htarget, List.forall_mem_map.mpr hargs⟩)

theorem throughout_list {elements : List Expression} (several : 2 ≤ elements.length)
    (helements : ∀ element ∈ elements, element.Throughout p) (kind : ListKind) :
    (Expression.list kind elements .empty (elements.all (·.isConst))).Throughout p :=
  .intro (inherits.list several helements kind) (List.forall_mem_map.mpr helements)

theorem throughout_binary {op : Operator} {left right : Expression} (hop : op.IsInfix)
    (hleft : left.Throughout p) (hright : right.Throughout p) :
    (Expression.binary op left right (left.isConst && right.isConst)).Throughout p :=
  .intro (inherits.binary hop hleft hright)
    (List.forall_mem_cons.mpr ⟨hleft, List.forall_mem_singleton.mpr hright⟩)

theorem throughout_attributeSelection {selected : Expression} {attr : Attribute}
    {qualities : QualitySet} {type : DataType} {constant : Bool}
    (hselected : selected.Throughout p)
    (hattr : (Expression.attributeName attr qualities constant).Throughout p)
    (hadded : attributeType.addQualities qualities = (type, none)) :
    (Expression.attributeSelection selected attr type (selected.isConst && constant)).Throughout
      p := by
  have htype : type.Throughout p := by
    have hlayered : type = (attributeType.addQualities qualities).1 := by rw [hadded]
    refine .intro (inherits.selectedType hadded) ?_
    rw [hlayered]
    exact nofun
  exact .intro (inherits.attributeSelection hselected hattr hadded)
    (List.forall_mem_cons.mpr ⟨hselected, List.forall_mem_singleton.mpr htype⟩)

theorem throughout_typecast {operand : Expression} {target : DataType} {constant : Bool}
    (hoperand : operand.Throughout p)
    (htarget : (Expression.typeName target constant).Throughout p) :
    (Expression.typecast operand target operand.isConst).Throughout p :=
  .intro (inherits.typecast hoperand htarget)
    (List.forall_mem_cons.mpr ⟨hoperand, htarget.parts⟩)

theorem throughout_constant {expression : Expression} (hexpression : expression.Throughout p)
    (marked : expression.isLiteral = true ∨
      ∃ token, word token ∧ token.isKeyword "constexpr" = true) :
    (expression.setConst true).Throughout p :=
  hexpression.of_parts (inherits.constant hexpression marked) (expression.parts_setConst true)

omit inherits in
/-- Qualities that are layered on an expression are layered on the type in it. -/
theorem throughout_overridden (inherits : Node.TypesInherit word p)
    {expression layered : Expression} {qualities : QualitySet}
    (hexpression : expression.Throughout p) (hgrown : qualities.Grown)
    (hadded : expression.overrideQualities qualities = (layered, none))
    (here : p (.expression layered)) : layered.Throughout p := by
  have hlayered {type : DataType} (htype : type.Throughout p)
      (hnone : (type.addQualities qualities).2.map OverrideError.conflict = none) :
      (type.addQualities qualities).1.Throughout p :=
    throughout_layered inherits htype hgrown
      (Prod.ext rfl (Option.map_eq_none_iff.mp hnone))
  cases expression with
  | literal type value constant =>
    obtain ⟨rfl, hnone⟩ := Prod.mk.inj hadded
    have htype := hlayered (hexpression.parts _ List.mem_cons_self) hnone
    exact .intro here (List.forall_mem_singleton.mpr htype)
  | typeName type constant =>
    obtain ⟨rfl, hnone⟩ := Prod.mk.inj hadded
    have htype := hlayered (hexpression.parts _ List.mem_cons_self) hnone
    exact .intro here (List.forall_mem_singleton.mpr htype)
  | attributeSelection selected attr type constant =>
    obtain ⟨rfl, hnone⟩ := Prod.mk.inj hadded
    obtain ⟨hselected, htypes⟩ := List.forall_mem_cons.mp hexpression.parts
    have htype := hlayered (htypes _ List.mem_cons_self) hnone
    exact .intro here (List.forall_mem_cons.mpr ⟨hselected, List.forall_mem_singleton.mpr htype⟩)
  | list kind elements own constant =>
    obtain ⟨rfl, -⟩ := Prod.mk.inj hadded
    exact hexpression.of_parts here rfl
  | attributeName attr own constant =>
    obtain ⟨rfl, -⟩ := Prod.mk.inj hadded
    exact hexpression.of_parts here rfl
  | _ => simp [Expression.overrideQualities] at hadded

end Nodes

/-! ## Elements and initializers -/

section Parts

variable (keep : StepsKeep inv word) (made : MakesParts inv p parse)

include keep made

theorem makes_elementsRule (context : Context) :
    Makes inv (fun elements => ∀ element ∈ elements, element.Throughout p)
      (elementsRule parse context) := by
  refine keep.comma.bind fun _ _ => .ite (fun _ => ?_) fun _ => .pure nofun
  exact (made.expression context).bind fun _ helement => (made.elements context).bind
    fun _ helements => .pure (List.forall_mem_cons.mpr ⟨helement, helements⟩)

theorem makes_initializersRule : Makes inv (fun initializers => ∀ initializer ∈ initializers,
    ∀ part ∈ initializer.parts, part.Everywhere p) (initializersRule parse) := by
  refine Keeps.peek.bind fun _ _ => .ite (fun _ => .pure nofun) fun _ => ?_
  refine (made.expression _).bind fun member hmember => ?_
  refine (keep.operator (by decide)).bind fun _ _ => ?_
  refine .ite (fun _ => ?_) fun _ => Keeps.currentLine.bind fun _ _ => .reject_bind
  refine (made.expression _).bind fun value hvalue => ?_
  have hparts : ∀ part ∈ Initializer.parts ⟨member, value⟩, part.Everywhere p :=
    List.forall_mem_cons.mpr ⟨hmember, List.forall_mem_singleton.mpr hvalue⟩
  have hmore : Makes inv (fun initializers => ∀ initializer ∈ initializers,
      ∀ part ∈ initializer.parts, part.Everywhere p)
      (do return ⟨member, value⟩ :: (← parse .initializers)) :=
    made.initializers.bind fun _ hrest => .pure (List.forall_mem_cons.mpr ⟨hparts, hrest⟩)
  refine keep.comma.bind fun _ _ => .ite (fun _ => hmore) fun _ => ?_
  refine (Keeps.atPunctuation _).bind fun _ _ => .ite (fun _ => hmore) fun _ => ?_
  exact Keeps.currentLine.bind fun _ _ => .reject_bind

end Parts

/-! ## Constructions -/

section Rules

variable (kept : Session.Kept inv word name) (inherits : Node.ExpressionsInherit word p)
  (made : MakesAll inv p parse)

include kept inherits made

/-- A construction of the initializers that are read. -/
theorem makes_construction (explicitType : Option String) :
    Makes inv (fun result => Expression.Throughout p result ∧
      ∃ initializers hasDefault constant,
        result = .construction explicitType initializers hasDefault constant)
      (construction parse explicitType) := by
  refine (Keeps.expectPunctuation kept _ _).bind fun _ _ => ?_
  refine made.initializers.bind fun initializers hinitializers => ?_
  have hclose (hasDefault : Bool) :
      Makes inv (fun result => Expression.Throughout p result ∧
        ∃ initializers hasDefault constant,
          result = .construction explicitType initializers hasDefault constant) (do
        expectPunctuation Grouping.brace.closing "to close construction"
        return Expression.construction explicitType initializers hasDefault
          (initializers.all fun initializer => initializer.value.isConst)) := by
    refine (Keeps.expectPunctuation kept _ _).bind fun _ _ => .pure ⟨?_, _, _, _, rfl⟩
    refine .intro (inherits.construction hinitializers explicitType hasDefault) fun part hpart => ?_
    obtain ⟨initializer, hmem, hpart⟩ := List.mem_flatMap.mp hpart
    exact hinitializers initializer hmem part hpart
  refine (Keeps.take kept _).bind fun hasDefault _ => .ite (fun _ => ?_) fun _ => hclose _
  exact (Makes.map (Keeps.take kept _) fun _ _ => trivial).bind fun _ (_ : True) => hclose _

/-! ## Operands -/

omit kept inherits made in
/-- Behind a comma, an element is read. -/
theorem elementsRule_ne_nil (context : Context) {s later : Session}
    {elements : List Expression} (hrun : elementsRule parse context s = .ok elements later)
    (hcomma : s.cursor.current.isPunctuation "," = true) : elements ≠ [] := by
  rw [elementsRule, bind_run, takePunctuation_run, if_pos hcomma] at hrun
  obtain ⟨element, _, -, hrun⟩ := exists_of_bind hrun
  obtain ⟨rest, _, -, hrun⟩ := exists_of_bind hrun
  cases hrun
  exact List.cons_ne_nil _ _

omit kept inherits made in
theorem Keeps.listKindOf (opened : Grouping) : Keeps inv (listKindOf opened) := by
  unfold Parser.listKindOf
  split
  · exact .pure trivial
  · exact Keeps.currentLine.bind fun _ _ => .reject

/-- A group is one expression, or a list of none or of several. -/
theorem makes_group (opened : Grouping) :
    Makes inv (fun operand => operand.1.Throughout p) (group parse opened) := by
  refine (Keeps.atPunctuation _).bind fun _ _ => .ite (fun _ => ?_) fun _ => ?_
  · refine (Keeps.listKindOf opened).bind fun kind _ => (Keeps.move kept).bind fun _ _ => ?_
    exact .pure (.intro (inherits.emptyList kind) nofun)
  refine (made.expression _).bind fun first hfirst s operand later hs hrun => ?_
  rw [bind_run, atPunctuation_run] at hrun
  dsimp only at hrun
  split at hrun
  next hcomma =>
    have hlist (kind : ListKind) {elements : List Expression} (hsome : elements ≠ [])
        (helements : ∀ element ∈ elements, element.Throughout p) :
        Makes inv (fun operand => Expression.Throughout p operand.1) (do
          expectPunctuation opened.closing "to close list"
          return (Expression.list kind (first :: elements) .empty
            ((first :: elements).all Expression.isConst), true)) := by
      have hseveral : 2 ≤ (first :: elements).length :=
        Nat.succ_le_succ (List.length_pos_iff.mpr hsome)
      exact (Keeps.expectPunctuation kept _ _).bind fun _ _ => .pure
        (throughout_list inherits hseveral (List.forall_mem_cons.mpr ⟨hfirst, helements⟩) kind)
    unfold listKindOf at hrun
    cases hkind : opened.listKind? with
    | none => simp [hkind] at hrun
    | some kind =>
      simp only [hkind, pure_bind] at hrun
      obtain ⟨elements, middle, helements, hrun⟩ := exists_of_bind hrun
      have hsome := made.elements_ne_nil _ helements hcomma
      obtain ⟨helements, hmiddle⟩ := made.elements _ hs helements
      exact hlist kind hsome helements hmiddle hrun
  next =>
    have hsingle : Makes inv (fun operand => Expression.Throughout p operand.1) (do
        expectPunctuation opened.closing "to close grouped expression"
        return (first, false)) :=
      (Keeps.expectPunctuation kept _ _).bind fun _ _ => .pure hfirst
    exact hsingle hs hrun

omit kept in
theorem makes_unary {source op : Operator} (hunary : source.toUnary? = some op)
    (context : Context) : Makes inv (Expression.Throughout p) (unary parse context op) :=
  (made.expression _).bind fun _ hoperand =>
    .pure (.intro (inherits.unary hunary hoperand) (List.forall_mem_singleton.mpr hoperand))

omit kept in
theorem makes_operatorOperand (context : Context) (token : Token) :
    Makes inv (Expression.Throughout p) (operatorOperand parse context token) := by
  refine .ite (fun _ => (made.expression _).bind fun target htarget => ?_) fun _ => ?_
  · split
    · exact .pure (.intro (inherits.call htarget) htarget.parts)
    · exact .reject
  · split
    next hunary =>
      obtain ⟨source, -, hunary⟩ := Option.bind_eq_some_iff.mp hunary
      exact makes_unary inherits made hunary context
    · exact .reject

omit inherits made in
theorem Keeps.constructedType : Keeps inv constructedType :=
  (makes_peek kept).bind fun _ _ =>
    .ite (fun _ => (makes_advance kept).bind fun _ _ => .pure trivial) fun _ => .pure trivial

theorem makes_keywordOperand (context : Context) (token : Token) :
    Makes inv (Expression.Throughout p) (keywordOperand parse context token) := by
  have hnot : Operator.toUnary? .not = some .not := rfl
  refine .ite (fun _ => makes_unary inherits made hnot context) fun _ => ?_
  split
  · exact .pure (.intro (inherits.attributeName _) nofun)
  · refine .ite (fun _ => ?_) fun _ => ?_
    · exact (Keeps.constructedType kept).bind fun explicitType _ =>
        (makes_construction kept inherits made explicitType).mono fun _ => And.left
    · refine (Keeps.retreat kept).bind fun _ _ => made.typeName.explaining.bind fun _ htype => ?_
      exact .pure (.intro (inherits.typeName htype) (List.forall_mem_singleton.mpr htype))

theorem makes_operand (context : Context) {token : Token} (read : word token) :
    Makes inv (fun operand => operand.1.Throughout p) (operand parse context token) := by
  have hliteral {kind : PrimaryKind}
      (kinds : kind ∈ [.int, .float, .string, .char, .bool, .void]) :
      Makes inv (fun operand => operand.1.Throughout p)
        (pure (Expression.ofLiteral kind token.text, false)) :=
    .pure (throughout_literal inherits kinds _)
  unfold operand
  split
  · exact .reject
  next hkind => exact .pure (.intro (inherits.identifier read hkind) nofun)
  · exact (makes_keywordOperand kept inherits made context token).bind fun _ hread => .pure hread
  · exact (makes_operatorOperand inherits made context token).bind fun _ hread => .pure hread
  · split
    · exact makes_group kept inherits made _
    · exact .reject
  all_goals exact hliteral (by decide)

/-! ## Marks behind an operand -/

omit made in
theorem makes_overrideQualities {operand : Expression} (hoperand : operand.Throughout p) :
    Makes inv (Expression.Throughout p) (overrideQualities operand) := by
  refine Keeps.currentLine.bind fun _ _ => ?_
  refine (makes_postfixedQualities (StepsKeep.of_kept kept).quality).explaining.bind
    fun _ hgrown => ?_
  split
  next hadded =>
    exact .pure (throughout_overridden inherits.toTypesInherit hoperand hgrown hadded
      (inherits.overridden hoperand hgrown hadded))
  · exact .reject
  · exact .reject

omit made in
theorem makes_markedOperand {operand : Expression} (hoperand : operand.Throughout p) :
    Makes inv (fun marked => marked.1.Throughout p ∧
      (marked.2 = true → ∃ token, word token ∧ token.isKeyword "constexpr" = true))
      (markedOperand operand) := by
  refine Makes.bind (show Keeps inv _ from ?_) fun _ _ => .ite (fun _ => ?_) fun _ => ?_
  · exact (makes_peek kept).bind fun _ _ => Keeps.keywordFollows.bind fun _ _ => .pure trivial
  · refine (Keeps.move kept).bind fun _ _ => (makes_take kept _).bind fun _ htaken => ?_
    refine .ite (fun hmarked => .pure ⟨hoperand, fun _ => htaken hmarked⟩) fun _ => ?_
    exact (makes_overrideQualities kept inherits hoperand).bind fun _ hlayered =>
      .pure ⟨hlayered, nofun⟩
  · exact .pure ⟨hoperand, nofun⟩

/-! ## Expressions -/

theorem makes_continueOperand (context : Context) {marked : Bool}
    (hmarked : marked = true → ∃ token, word token ∧ token.isKeyword "constexpr" = true)
    {operand : Expression × Bool} (hoperand : operand.1.Throughout p) :
    Makes inv (Expression.Throughout p) (continueOperand parse context marked operand) := by
  refine (makes_markedOperand kept inherits hoperand).bind fun behind hbehind => ?_
  obtain ⟨hbehind, hmarkedBehind⟩ := hbehind
  have hconstant : (if marked || behind.2 || behind.1.isLiteral then behind.1.setConst true
      else behind.1).Throughout p := by
    split
    next hconstant =>
      refine throughout_constant inherits hbehind ?_
      simp only [Bool.or_eq_true] at hconstant
      tauto
    next => exact hbehind
  refine .ite (fun _ => .pure hconstant) fun _ => ?_
  unfold atAssignment
  simp only [bind_assoc, pure_bind]
  refine (makes_peek kept).bind fun _ _ => .ite (fun _ => .pure hconstant) fun _ => ?_
  exact made.operations hconstant _ _

theorem makes_expressionRule (context : Context) :
    Makes inv (Expression.Throughout p) (expressionRule parse context) :=
  (makes_take kept _).bind fun _ hmarked => (makes_advance kept).bind fun _ hread =>
    (makes_operand kept inherits made context hread).bind fun _ hoperand =>
      makes_continueOperand kept inherits made context hmarked hoperand

/-! ## Operations -/

omit kept made in
theorem makes_combine {op : Operator} {left right : Expression} (hbetween : op.isPrefixOnly = false)
    (hmove : op.isMoveAssignment = false) (hindex : op ≠ .index) (hprocedure : op ≠ .procOperator)
    (hleft : left.Throughout p) (hright : right.Throughout p) (line : ℕ) :
    Makes inv (Expression.Throughout p) (combine op left right line) := by
  unfold combine
  split
  · split
    next hadded => exact .pure (throughout_attributeSelection inherits hleft hright hadded)
    · exact .reject
  · exact .pure (throughout_typecast inherits hleft hright)
  · exact .reject
  · exact .reject
  next hselection hcast _ _ =>
    exact .pure (throughout_binary inherits
      ⟨hbetween, hmove, hindex, hprocedure, hselection, hcast⟩ hleft hright)

theorem makes_index {target : Expression} (htarget : target.Throughout p) :
    Makes inv (Expression.Throughout p) (index parse target) :=
  (made.expression _).bind fun _ hindex => (Keeps.expectPunctuation kept _ _).bind fun _ _ =>
    .pure (.intro (inherits.indexed htarget hindex)
      (List.forall_mem_cons.mpr ⟨htarget, List.forall_mem_singleton.mpr hindex⟩))

omit kept in
theorem makes_arguments {target : Expression} (htarget : target.Throughout p)
    (context : Context) : Makes inv (Expression.Throughout p) (arguments parse target context) := by
  refine (made.expression _).bind fun args hargs => ?_
  split
  · exact .pure (throughout_procedure inherits htarget fun element hmem =>
      hargs.parts _ (List.mem_map_of_mem hmem))
  · exact .pure (throughout_procedure inherits htarget (List.forall_mem_singleton.mpr hargs))

theorem makes_operation {op : Operator} {left : Expression} (hbetween : op.isPrefixOnly = false)
    (hmove : op.isMoveAssignment = false) (hleft : left.Throughout p) (context : Context) :
    Makes inv (Expression.Throughout p) (operation parse left op context) := by
  unfold operation
  split
  · exact (Keeps.move kept).bind fun _ _ => makes_index kept inherits made hleft
  · exact makes_arguments inherits made hleft context
  next hindex hprocedure =>
    refine Keeps.currentLine.bind fun line _ => (Keeps.move kept).bind fun _ _ => ?_
    refine (made.expression _).bind fun _ hright => ?_
    refine (made.operations hright _ _).bind fun _ hright => ?_
    exact makes_combine inherits hbetween hmove hindex hprocedure hleft hright line

theorem makes_operationsRule {left : Expression} (hleft : left.Throughout p) (floor : ℕ)
    (context : Context) : Makes inv (Expression.Throughout p)
      (operationsRule parse left floor context) := by
  refine (makes_peek kept).bind fun _ _ => .ite (fun _ => .pure hleft) fun _ => ?_
  split
  · exact .reject
  next op _ =>
    refine .ite (fun _ => .pure hleft) fun htaken => Keeps.keywordFollows.bind fun _ _ => ?_
    refine .ite (fun _ => .pure hleft) fun _ => .ite (fun _ => .reject) fun hbetween => ?_
    refine .ite (fun _ => .pure hleft) fun _ => ?_
    have hmove : op.isMoveAssignment = false := by
      simp only [isLeftToStatement, Bool.or_eq_true, not_or] at htaken
      simpa using htaken.1
    refine (makes_operation kept inherits made (by simpa using hbetween) hmove hleft context).bind
      fun _ hcombined => ?_
    exact made.operations hcombined _ _

end Rules

end Parser

end SinFrontend
