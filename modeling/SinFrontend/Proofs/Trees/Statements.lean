import SinFrontend.Proofs.Synchronization
import SinFrontend.Proofs.Trees.Expressions

/-!
# Statements that are read

A property that trees inherit holds throughout the statements that the rules make, and so throughout
whatever the descent from rule to rule makes in any number of steps. What is read as a whole has it
throughout: expressions, blocks and programs, and the program of a compilation.

* `makes_statementRule`: a statement stands on the line of its first token.
* `makesAll_descend`, `makesAll_full`: the descent makes only trees that have the property.
* `makes_program`, `Compilation.throughout_program`: so do programs, read at once or in rounds.
* `Compilation.throughout_of_inherits`: both, where nothing is asked of the tokens.
-/

namespace SinFrontend

namespace Parser

variable {inv : Session → Prop} {word : Token → Prop} {name : String → Prop} {p : Node → Prop}
  {parse : Descent}

section Rules

variable (kept : Session.Kept inv word name) (inherits : Node.StatementsInherit word name p)
  (made : MakesAll inv p parse)

/-! ## Blocks -/

section

include inherits

theorem throughout_ofList {statements : List Statement} (hstatements : ∀ statement ∈ statements,
    statement.Throughout p ∧ statement.isInitialized = false) :
    (Block.ofList statements).Throughout p := by
  refine .intro (inherits.block hstatements) fun part hpart => ?_
  rw [Node.parts, Block.statements_ofList] at hpart
  obtain ⟨statement, hmem, rfl⟩ := List.mem_map.mp hpart
  exact (hstatements statement hmem).1

/-- A scoped block stands where a statement without a value can stand. -/
theorem madeOn_scopedBlock {block : Block} (hblock : block.Throughout p) (isParameter : Bool)
    (line : ℕ) : MadeOn p isParameter line ⟨.scopedBlock block, line⟩ where
  throughout := .intro (inherits.scopedBlock hblock line) (List.forall_mem_singleton.mpr hblock)
  bare _ := rfl
  line_eq := rfl

end

include kept made

theorem makes_statementsRule : Makes inv (fun entries => ∀ statement ∈ entries.filterMap (·.1),
    statement.Throughout p ∧ statement.isInitialized = false) (statementsRule parse) := by
  refine (Keeps.skipSemicolons kept).bind fun _ _ => Keeps.atEnd.bind fun _ _ => ?_
  refine (Keeps.atPunctuation _).bind fun _ _ => .ite (fun _ => .pure nofun) fun _ => ?_
  refine Keeps.currentLine.bind fun line _ => (made.statement false).bind fun read hread => ?_
  refine made.statements.bind fun entries hentries => .pure ?_
  cases read with
  | none => exact hentries
  | some statement =>
    obtain ⟨_, hstatement⟩ := hread statement rfl
    exact List.forall_mem_cons.mpr ⟨⟨hstatement.throughout, hstatement.bare rfl⟩, hentries⟩

include inherits

theorem makes_block : Makes inv (Block.Throughout p) (block parse) := by
  refine made.statements.bind fun entries hentries => ?_
  have hblock := throughout_ofList inherits hentries
  refine .ite (fun _ => .pure hblock) fun _ => ?_
  exact (Keeps.forM (fun _ => Keeps.record kept _) _).bind fun _ _ => .pure hblock

theorem makes_closedBlock (context : String) :
    Makes inv (Block.Throughout p) (closedBlock parse context) :=
  (makes_block kept inherits made).bind fun _ hblock =>
    (Keeps.expectPunctuation kept _ _).bind fun _ _ => .pure hblock

/-! ## Declarations and allocations -/

theorem makes_typedName (context : String) :
    Makes inv (fun typed => typed.1.Throughout p ∧ name typed.2) (typedName parse context) :=
  made.typeName.bind fun _ htype => (makes_expectIdentifier kept context).bind fun _ hname =>
    (makes_withPostfixedQualities (.of_kept kept) inherits.toTypesInherit htype).bind
      fun _ hlayered => .pure ⟨hlayered, hname⟩

omit inherits in
theorem makes_parametersRule : Makes inv (fun params => ∀ param ∈ params,
    param.Throughout p ∧ param.isDeclaration = true) (parametersRule parse) := by
  refine (Keeps.atPunctuation _).bind fun _ _ => .ite (fun _ => .pure nofun) fun _ => ?_
  refine Keeps.currentLine.bind fun line _ => (made.statement true).bind fun read hread => ?_
  split
  next param =>
    refine .ite (fun hdeclaration => ?_) fun _ => .reject_bind
    obtain ⟨_, hparam⟩ := hread param rfl
    have hmore : Makes inv (fun params => ∀ param ∈ params,
        param.Throughout p ∧ param.isDeclaration = true)
        (do return param :: (← parse .parameters)) :=
      made.parameters.bind fun _ hparams =>
        .pure (List.forall_mem_cons.mpr ⟨⟨hparam.throughout, hdeclaration⟩, hparams⟩)
    refine (Keeps.take kept _).bind fun _ _ => .ite (fun _ => hmore) fun _ => ?_
    refine (Keeps.atPunctuation _).bind fun _ _ => .ite (fun _ => hmore) fun _ => ?_
    exact Keeps.currentLine.bind fun _ _ => .reject_bind
  next => exact .reject

omit inherits in
theorem makes_formalParameters : Makes inv (fun params => ∀ param ∈ params,
    param.Throughout p ∧ param.isDeclaration = true) (formalParameters parse) :=
  made.parameters.bind fun _ hparams => (Keeps.move kept).bind fun _ _ => .pure hparams

theorem makes_definitionBody (missing empty : String) :
    Makes inv (Block.Throughout p) (definitionBody parse missing empty) := by
  refine (Keeps.take kept _).bind fun _ _ => .ite (fun _ => ?_) fun _ =>
    Keeps.currentLine.bind fun _ _ => .reject_bind
  have hblock := makes_closedBlock kept inherits made "to close definition body"
  refine (Keeps.atPunctuation _).bind fun _ _ => .ite (fun _ => ?_) fun _ => hblock
  exact Keeps.currentLine.bind fun _ _ => (Keeps.record kept _).bind fun _ _ => hblock

section

omit kept made in
/-- What a declaration is made of. Only a parameter has a value. -/
theorem madeOn_declaration {type : DataType} {id : String} {value : Option Expression}
    {params : List Statement} {isParameter : Bool} (htype : type.Throughout p) (hname : name id)
    (hvalue : ∀ initial, value = some initial → initial.Throughout p)
    (hbare : isParameter = false → value.isSome = false)
    (hparams : ∀ param ∈ params, param.Throughout p ∧ param.isDeclaration = true)
    (isFunction isStruct : Bool) (line : ℕ) :
    MadeOn p isParameter line ⟨.declaration type id value isFunction isStruct params, line⟩ where
  throughout := by
    refine .intro (inherits.declaration htype hname hvalue hparams _ _ line) ?_
    refine List.forall_mem_cons.mpr ⟨htype, List.forall_mem_append.mpr ⟨?_, ?_⟩⟩
    · exact List.forall_mem_map.mpr fun initial hmem => hvalue initial (Option.mem_toList.mp hmem)
    · exact List.forall_mem_map.mpr fun param hmem => (hparams param hmem).1
  bare := hbare
  line_eq := rfl

omit made in
theorem makes_structDeclaration (isParameter : Bool) (line : ℕ) :
    Makes inv (MadeOn p isParameter line) (structDeclaration line) := by
  refine (makes_structName kept).bind fun id hname => ?_
  refine (Keeps.expectStatementEnd kept).bind fun _ _ => .pure ?_
  exact madeOn_declaration inherits (.intro (inherits.structType hname) nofun) hname (by nofun)
    (fun _ => rfl) (by nofun) false true line

omit inherits in
theorem makes_declaredValue (isParameter : Bool) : Makes inv (fun value =>
    (∀ initial, value = some initial → Expression.Throughout p initial) ∧
      (isParameter = false → value.isSome = false)) (declaredValue parse isParameter) := by
  refine (makes_peek kept).bind fun _ _ => .ite (fun _ => ?_) fun _ => .pure ⟨nofun, fun _ => rfl⟩
  refine .ite (fun hparameter => ?_) fun _ => Keeps.currentLine.bind fun _ _ => .reject_bind
  refine (Keeps.move kept).bind fun _ _ => (made.expression _).bind fun value hvalue => .pure ?_
  refine ⟨?_, fun hnone => absurd hparameter (by simp [hnone])⟩
  rintro initial ⟨⟩
  exact hvalue

theorem makes_typedDeclaration (isParameter : Bool) (line : ℕ) :
    Makes inv (MadeOn p isParameter line) (typedDeclaration parse line isParameter) := by
  refine (Keeps.expectTypeStart kept line).bind fun _ _ => ?_
  refine (makes_typedName kept inherits made _).bind fun typed htyped => ?_
  refine (Keeps.take kept _).bind fun _ _ => .ite (fun _ => ?_) fun _ => ?_
  · refine (makes_formalParameters kept made).bind fun params hparams => ?_
    refine (Keeps.expectStatementEnd kept).bind fun _ _ => .pure ?_
    exact madeOn_declaration inherits htyped.1 htyped.2 (by nofun) (fun _ => rfl) hparams
      true false line
  · refine (makes_declaredValue kept made isParameter).bind fun value hvalue => ?_
    refine (Keeps.expectStatementEnd kept).bind fun _ _ => .pure ?_
    exact madeOn_declaration inherits htyped.1 htyped.2 hvalue.1 hvalue.2 (by nofun)
      false false line

theorem makes_declaration (isParameter : Bool) (line : ℕ) :
    Makes inv (MadeOn p isParameter line) (declaration parse line isParameter) :=
  (Keeps.take kept _).bind fun _ _ =>
    .ite (fun _ => makes_structDeclaration kept inherits isParameter line) fun _ =>
      makes_typedDeclaration kept inherits made isParameter line

theorem makes_allocation (isParameter : Bool) (line : ℕ) :
    Makes inv (MadeOn p isParameter line) (allocation parse line) := by
  refine (Keeps.expectTypeStart kept line).bind fun _ _ => ?_
  refine (makes_typedName kept inherits made _).bind fun typed htyped => ?_
  refine .ite (fun hvalid => ?_) fun _ => Keeps.previousLine.bind fun _ _ => .reject_bind
  have hend {value : Option Expression}
      (hvalue : ∀ initial, value = some initial → initial.Throughout p) :
      Makes inv (MadeOn p isParameter line)
        (do expectStatementEnd; return ⟨.allocation typed.1 typed.2 value, line⟩) := by
    refine (Keeps.expectStatementEnd kept).bind fun _ _ => .pure ⟨.intro
      (inherits.allocation htyped.1 hvalid htyped.2 hvalue line) ?_, fun _ => rfl, rfl⟩
    exact List.forall_mem_cons.mpr ⟨htyped.1, List.forall_mem_map.mpr fun initial hmem =>
      hvalue initial (Option.mem_toList.mp hmem)⟩
  refine (Keeps.take kept _).bind fun _ _ => .ite (fun _ => ?_) fun _ => hend nofun
  refine Makes.bind ((made.expression {}).map fun value hvalue => ?_) fun _ => hend
  rintro initial ⟨⟩
  exact hvalue

end

/-! ## Definitions -/

omit kept inherits made in
theorem makes_demandReturn (body : Block) (id : String) (line : ℕ) :
    Makes inv (fun _ => body.bodyReturns = .ok true) (demandReturn body id line) := by
  unfold demandReturn
  split
  next hreturns => exact .pure hreturns
  · exact .reject
  · exact .throw _

theorem makes_functionDefinition (isParameter : Bool) (line : ℕ) :
    Makes inv (MadeOn p isParameter line) (functionDefinition parse line) := by
  refine (makes_typedName kept inherits made _).bind fun typed htyped => ?_
  refine (Keeps.take kept _).bind fun _ _ => .ite (fun _ => ?_) fun _ => .reject_bind
  refine (makes_formalParameters kept made).bind fun params hparams => ?_
  refine (makes_definitionBody kept inherits made _ _).bind fun body hbody => ?_
  refine (makes_demandReturn body _ line).bind fun _ hreturns => .pure ⟨?_, fun _ => rfl, rfl⟩
  refine .intro (inherits.functionDefinition htyped.1 htyped.2 hparams hbody hreturns line) ?_
  exact List.forall_mem_cons.mpr ⟨htyped.1, List.forall_mem_cons.mpr
    ⟨hbody, List.forall_mem_map.mpr fun param hmem => (hparams param hmem).1⟩⟩

theorem makes_structDefinition (isParameter : Bool) (line : ℕ) :
    Makes inv (MadeOn p isParameter line) (structDefinition parse line) := by
  refine (makes_structName kept).bind fun id hname => ?_
  refine (makes_definitionBody kept inherits made _ _).bind fun body hbody => .pure ?_
  exact ⟨.intro (inherits.structDefinition hname hbody line) (List.forall_mem_singleton.mpr hbody),
    fun _ => rfl, rfl⟩

theorem makes_definition (isParameter : Bool) (line : ℕ) :
    Makes inv (MadeOn p isParameter line) (definition parse line) :=
  (Keeps.take kept _).bind fun _ _ =>
    .ite (fun _ => makes_structDefinition kept inherits made isParameter line) fun _ =>
      makes_functionDefinition kept inherits made isParameter line

/-! ## Simple statements -/

omit made in
theorem makes_includeDirective (isParameter : Bool) (line : ℕ) :
    Makes inv (MadeOn p isParameter line) (includeDirective line) := by
  refine (makes_peek kept).bind fun _ _ => .ite (fun _ => ?_) fun _ => .reject
  refine (makes_advance kept).bind fun _ _ => (Keeps.expectStatementEnd kept).bind fun _ _ => ?_
  exact .pure ⟨.intro (inherits.includeFile _ line) nofun, fun _ => rfl, rfl⟩

omit inherits made in
theorem Keeps.copyOperator : Keeps inv copyOperator := by
  refine (makes_advance kept).bind fun _ _ => ?_
  split
  · exact .ite (fun _ => .pure trivial) fun _ => .ite (fun _ => .reject) fun _ => .reject
  · exact .reject

omit kept inherits made in
theorem isInfix_of_compoundBase? {op base : Operator} (h : op.compoundBase? = some base) :
    base.IsInfix := by
  cases op <;> cases h <;> constructor <;> decide

theorem makes_assignment (isParameter : Bool) (line : ℕ) :
    Makes inv (MadeOn p isParameter line) (assignment parse line) := by
  refine (made.expression _).bind fun target htarget => ?_
  refine (Keeps.copyOperator kept).bind fun op _ => (Keeps.atPunctuation _).bind fun _ _ => ?_
  refine Keeps.atEnd.bind fun _ _ => Keeps.currentLine.bind fun _ _ => ?_
  refine .ite (fun _ => .reject_bind) fun _ => (made.expression _).bind fun value hvalue => ?_
  refine (Keeps.expectStatementEnd kept).bind fun _ _ => ?_
  split
  · exact .pure ⟨.intro (inherits.assignment htarget hvalue line)
      (List.forall_mem_cons.mpr ⟨htarget, List.forall_mem_singleton.mpr hvalue⟩),
      fun _ => rfl, rfl⟩
  next hbase =>
    have hbinary := throughout_binary inherits.toExpressionsInherit
      (isInfix_of_compoundBase? hbase) htarget hvalue
    exact .pure ⟨.intro (inherits.compoundAssignment hbase htarget hvalue line)
      (List.forall_mem_cons.mpr ⟨htarget, List.forall_mem_singleton.mpr hbinary⟩),
      fun _ => rfl, rfl⟩

theorem makes_movement (isParameter : Bool) (line : ℕ) :
    Makes inv (MadeOn p isParameter line) (movement parse line) := by
  refine (made.expression _).bind fun first hfirst => (makes_peek kept).bind fun _ _ => ?_
  have hmove {destination source : Expression} (hdestination : destination.Throughout p)
      (hsource : source.Throughout p) :
      MadeOn p isParameter line ⟨.movement destination source, line⟩ :=
    ⟨.intro (inherits.movement hdestination hsource line)
      (List.forall_mem_cons.mpr ⟨hdestination, List.forall_mem_singleton.mpr hsource⟩),
      fun _ => rfl, rfl⟩
  split
  · refine .ite (fun _ => (Keeps.move kept).bind fun _ _ => ?_) fun _ => .reject_bind
    refine (made.expression _).bind fun second hsecond => ?_
    refine (Keeps.expectStatementEnd kept).bind fun _ _ => ?_
    exact .ite (fun _ => .pure (hmove hfirst hsecond)) fun _ => .pure (hmove hsecond hfirst)
  · exact .reject

theorem makes_returnedValue (line : ℕ) :
    Makes inv (Expression.Throughout p) (returnedValue parse line) := by
  have hvoid : Expression.voidLiteral.Throughout p :=
    throughout_literal inherits.toExpressionsInherit (by decide) "void"
  refine (Keeps.atPunctuation _).bind fun _ _ => .ite (fun _ => .pure hvoid) fun _ => ?_
  refine (Keeps.take kept _).bind fun _ _ => .ite (fun _ => ?_) fun _ => ?_
  · exact (Keeps.atPunctuation _).bind fun _ _ =>
      .ite (fun _ => .pure hvoid) fun _ => .reject_bind
  · exact (made.expression _).bind fun _ hvalue =>
      (Keeps.expectStatementEnd kept).bind fun _ _ => .pure hvalue

theorem makes_callStatement (isParameter : Bool) (line : ℕ) :
    Makes inv (MadeOn p isParameter line) (callStatement parse line) := by
  refine (made.expression _).bind fun call hcall => ?_
  refine .ite (fun hisCall => ?_) fun _ => .reject_bind
  exact (Keeps.expectStatementEnd kept).bind fun _ _ => .pure
    ⟨.intro (inherits.callStatement hcall hisCall line) (List.forall_mem_singleton.mpr hcall),
      fun _ => rfl, rfl⟩

theorem makes_constructStatement (isParameter : Bool) (line : ℕ) :
    Makes inv (MadeOn p isParameter line) (constructStatement parse line) := by
  refine (made.expression _).bind fun target htarget => ?_
  have hmakes := makes_construction kept inherits.toExpressionsInherit made none
  refine hmakes.bind fun value hvalue => ?_
  obtain ⟨hvalue, initializers, hasDefault, constant, rfl⟩ := hvalue
  exact .pure ⟨.intro (inherits.constructStatement htarget hvalue line)
    (List.forall_mem_cons.mpr ⟨htarget, List.forall_mem_singleton.mpr hvalue⟩), fun _ => rfl, rfl⟩

/-! ## Branches -/

omit inherits in
theorem makes_condition (line : ℕ) (missing : String) :
    Makes inv (Expression.Throughout p) (condition parse line missing) := by
  refine (Keeps.take kept _).bind fun _ _ => .ite (fun _ => ?_) fun _ => .reject_bind
  exact (made.expression _).bind fun _ hcondition =>
    (Keeps.expectPunctuation kept _ _).bind fun _ _ => .pure hcondition

theorem makes_branch : Makes inv (fun branch => branch.Throughout p ∧
    branch.isInitialized = false) (branch parse) := by
  refine Keeps.currentLine.bind fun line _ => (made.statement false).bind fun read hread => ?_
  have hbranch : (read.getD ⟨.scopedBlock .empty, line⟩).Throughout p ∧
      (read.getD ⟨.scopedBlock .empty, line⟩).isInitialized = false := by
    cases read with
    | none =>
      have hempty : (Block.ofList []).Throughout p := throughout_ofList inherits nofun
      exact ⟨(madeOn_scopedBlock inherits hempty false line).throughout, rfl⟩
    | some statement =>
      obtain ⟨_, hstatement⟩ := hread statement rfl
      exact ⟨hstatement.throughout, hstatement.bare rfl⟩
  refine (Keeps.take kept _).bind fun _ _ => .ite (fun _ => .pure hbranch) fun _ => ?_
  refine (makes_previous kept).bind fun _ _ => .ite (fun _ => .pure hbranch) fun _ => ?_
  exact Keeps.previousLine.bind fun _ _ => .reject_bind

theorem makes_conditional (isParameter : Bool) (line : ℕ) :
    Makes inv (MadeOn p isParameter line) (conditional parse line) := by
  refine (makes_condition kept made line _).bind fun condition hcondition => ?_
  refine (makes_branch kept inherits made).bind fun first hfirst => ?_
  refine (Keeps.take kept _).bind fun _ _ => .ite (fun _ => ?_) fun _ => .pure ?_
  · refine (makes_branch kept inherits made).bind fun otherwise hotherwise => .pure ?_
    exact ⟨.intro (inherits.ifElse hcondition hfirst hotherwise line)
      (List.forall_mem_cons.mpr ⟨hcondition, List.forall_mem_cons.mpr
        ⟨hfirst.1, List.forall_mem_singleton.mpr hotherwise.1⟩⟩), fun _ => rfl, rfl⟩
  · exact ⟨.intro (inherits.ifThen hcondition hfirst line)
      (List.forall_mem_cons.mpr ⟨hcondition, List.forall_mem_singleton.mpr hfirst.1⟩),
      fun _ => rfl, rfl⟩

theorem makes_loop (isParameter : Bool) (line : ℕ) :
    Makes inv (MadeOn p isParameter line) (loop parse line) := by
  refine (makes_condition kept made line _).bind fun condition hcondition => ?_
  refine (makes_branch kept inherits made).bind fun body hbody => .pure ?_
  exact ⟨.intro (inherits.whileLoop hcondition hbody line)
    (List.forall_mem_cons.mpr ⟨hcondition, List.forall_mem_singleton.mpr hbody.1⟩),
    fun _ => rfl, rfl⟩

/-! ## Statements -/

omit kept inherits made in
theorem makes_some {parser : Parser Statement} {isParameter : Bool} {line : ℕ}
    (h : Makes inv (MadeOn p isParameter line) parser) :
    Makes inv (fun read => ∀ statement, read = some statement →
      MadeOn p isParameter line statement) (some <$> parser) := by
  refine h.map ?_
  rintro statement hstatement _ ⟨⟩
  exact hstatement

theorem makes_keywordStatement (isParameter : Bool) (token : Token) :
    Makes inv (fun read => ∀ statement, read = some statement →
      MadeOn p isParameter token.line statement) (keywordStatement parse isParameter token) := by
  unfold keywordStatement
  split
  · exact makes_some (makes_includeDirective kept inherits _ _)
  · exact makes_some (makes_declaration kept inherits made _ _)
  · exact makes_some (makes_allocation kept inherits made _ _)
  · exact makes_some (makes_assignment kept inherits made _ _)
  · exact makes_some (makes_movement kept inherits made _ _)
  · refine (makes_returnedValue kept inherits made _).bind fun value hvalue => .pure ?_
    rintro _ ⟨⟩
    exact ⟨.intro (inherits.returnValue hvalue _) (List.forall_mem_singleton.mpr hvalue),
      fun _ => rfl, rfl⟩
  · exact makes_some (makes_conditional kept inherits made _ _)
  · exact makes_some (makes_loop kept inherits made _ _)
  · exact makes_some (makes_definition kept inherits made _ _)
  · exact makes_some (makes_constructStatement kept inherits made _ _)
  · exact .pure fun _ hnone => by cases hnone
  · exact .reject

/-- A statement stands on the line of the token that is read first. -/
theorem made_statementRule {isParameter : Bool} {s later : Session} {read : Option Statement}
    (hs : inv s) (hrun : statementRule parse isParameter s = .ok read later) :
    (∀ statement, read = some statement →
      MadeOn p isParameter (s.on .advance).cursor.previous.line statement) ∧ inv later := by
  obtain ⟨token, middle, hfirst, hrun⟩ := exists_of_bind hrun
  cases hfirst
  refine (show Makes inv (fun read => ∀ statement, read = some statement →
    MadeOn p isParameter (s.on .advance).cursor.previous.line statement) _ from ?_)
    (kept.advance hs) hrun
  split
  · exact makes_keywordStatement kept inherits made isParameter _
  · exact .reject
  · refine .ite (fun _ => ?_) fun _ => .ite (fun _ => ?_) fun _ => .reject
    · exact (Keeps.retreat kept).bind fun _ _ =>
        makes_some (makes_callStatement kept inherits made isParameter _)
    · refine (makes_closedBlock kept inherits made _).bind fun block hblock => .pure ?_
      rintro _ ⟨⟩
      exact madeOn_scopedBlock inherits hblock isParameter _

/-! ## The descent -/

/-- Rules make trees that have the property, if the readings that they ask for do. -/
theorem makesAll_rule : MakesAll inv p (rule parse) where
  typeName := makes_typeNameRule (.of_kept kept) inherits.toTypesInherit made.toMakesParts
  members := makes_tupleMembers (.of_kept kept) inherits.toTypesInherit made.toMakesParts
  expression := makes_expressionRule kept inherits.toExpressionsInherit made
  operations := makes_operationsRule kept inherits.toExpressionsInherit made
  elements := makes_elementsRule (.of_kept kept) made.toMakesParts
  elements_ne_nil := elementsRule_ne_nil
  initializers := makes_initializersRule (.of_kept kept) made.toMakesParts
  statement isParameter := by
    intro s read later hs hrun
    obtain ⟨hmade, hlater⟩ := made_statementRule kept inherits made hs hrun
    exact ⟨fun statement hsome => ⟨_, hmade statement hsome⟩, hlater⟩
  statements := makes_statementsRule kept made
  parameters := makes_parametersRule kept made

omit made in
/-- In any number of steps, only trees that have the property are made. -/
theorem makesAll_descend (steps : ℕ) : MakesAll inv p (descend steps) := by
  induction steps with
  | zero =>
    exact {
      typeName := .throw _
      members := .throw _
      expression := fun _ => .throw _
      operations := fun _ _ _ => .throw _
      elements := fun _ => .throw _
      elements_ne_nil := fun _ _ _ _ hrun => nomatch hrun
      initializers := .throw _
      statement := fun _ => .throw _
      statements := .throw _
      parameters := .throw _ }
  | succ steps ih => exact makesAll_rule kept inherits ih

omit kept inherits made in
theorem Makes.full {α : Type} {good : α → Prop} {goal : Goal α}
    (h : ∀ steps, Makes inv good (descend steps goal)) : Makes inv good (full goal) :=
  fun s _ _ hs hrun => h (stepsFor s.cursor) hs hrun

omit made in
theorem makesAll_full : MakesAll inv p full :=
  have made := makesAll_descend kept inherits
  { typeName := .full fun steps => (made steps).typeName
    members := .full fun steps => (made steps).members
    expression := fun context => .full fun steps => (made steps).expression context
    operations := fun hleft floor context =>
      .full fun steps => (made steps).operations hleft floor context
    elements := fun context => .full fun steps => (made steps).elements context
    elements_ne_nil := fun context s _ _ hrun =>
      (made (stepsFor s.cursor)).elements_ne_nil context hrun
    initializers := .full fun steps => (made steps).initializers
    statement := fun isParameter => .full fun steps => (made steps).statement isParameter
    statements := .full fun steps => (made steps).statements
    parameters := .full fun steps => (made steps).parameters }

end Rules

/-! ## Whole trees -/

variable (kept : Session.Kept inv word name) (inherits : Node.StatementsInherit word name p)

include kept inherits

theorem makes_expression (context : Context) :
    Makes inv (Expression.Throughout p) (expression context) :=
  (makesAll_full kept inherits).expression context

theorem makes_statementBlock : Makes inv (Block.Throughout p) statementBlock :=
  makes_block kept inherits (makesAll_full kept inherits)

theorem makes_program : Makes inv (Block.Throughout p) program := by
  refine (makes_statementBlock kept inherits).bind fun block hblock => ?_
  refine Keeps.atEnd.bind fun _ _ => ?_
  refine .ite (fun _ => .pure hblock) fun _ => ?_
  exact (makes_peek kept).bind fun _ _ => .reject_bind

theorem makes_topLevelStatement : Makes inv (fun read => ∀ statement, read = some statement →
    statement.Throughout p ∧ statement.isInitialized = false) topLevelStatement := by
  refine (Keeps.skipSemicolons kept).bind fun _ _ => Keeps.atEnd.bind fun _ _ => ?_
  refine .ite (fun _ => .pure nofun) fun _ => ?_
  refine Makes.bind (show Keeps inv _ from ?_) fun _ _ => ?_
  · rintro s _ _ hs ⟨⟩
    exact ⟨trivial, kept.start hs _⟩
  · refine ((makesAll_full kept inherits).statement false).mono fun _ hread statement hsome => ?_
    obtain ⟨_, hstatement⟩ := hread statement hsome
    exact ⟨hstatement.throughout, hstatement.bare rfl⟩

/-- The program of a text, if it can be read. -/
def programOf? (text : String) : Option Block :=
  match Session.ofText text with
  | .ok session =>
    match program session with
    | .ok program _ => some program
    | .error _ _ => none
  | .error _ => none

omit kept inherits in
theorem exists_of_programOf? (text : String) (test : Block → Bool)
    (h : (programOf? text).any test = true) :
    ∃ session later block, Session.ofText text = .ok session ∧ program session = .ok block later ∧
      test block = true := by
  obtain ⟨block, hblock, htest⟩ := (Option.any_eq_true test _).mp h
  unfold programOf? at hblock
  split at hblock
  next session hsession =>
    split at hblock
    next read later hprogram =>
      cases hblock
      exact ⟨session, later, block, hsession, hprogram, htest⟩
    next => cases hblock
  next => cases hblock

/-- Whether a parser reads a text, and the tokens of the text and what is read pass a test. -/
def readsAs {α : Type} (parser : Parser α) (test : List Token → α → Bool) (text : String) : Bool :=
  match Token.ofText text with
  | .ok tokens =>
    match parser (.ofTokens tokens) with
    | .ok a _ => test tokens a
    | .error _ _ => false
  | .error _ => false

omit kept inherits in
theorem exists_of_readsAs {α : Type} {parser : Parser α} {test : List Token → α → Bool}
    {text : String} (h : readsAs parser test text = true) :
    ∃ tokens a later, Token.ofText text = .ok tokens ∧ parser (.ofTokens tokens) = .ok a later ∧
      test tokens a = true := by
  unfold readsAs at h
  split at h
  next tokens htokens =>
    split at h
    next a later hrun => exact ⟨tokens, a, later, htokens, hrun, h⟩
    next => cases h
  next => cases h

end Parser

/-! ## Compilations -/

namespace Compilation

variable {inv : Session → Prop} {word : Token → Prop} {name : String → Prop} {p : Node → Prop}
  (kept : Session.Kept inv word name) (inherits : Node.StatementsInherit word name p)
  (recovers : ∀ {s failed : Session} {error : CompileError}, inv s →
    Parser.topLevelStatement s = .error (.rejected error) failed → inv failed.synchronize)
  {budget : ℕ} {progress next last : Progress} {s later : Session}

/-- The statements that were read so far have a property throughout, and no value is declared. -/
def Progress.Throughout (p : Node → Prop) (progress : Progress) : Prop :=
  ∃ statements, progress.program = .ofList statements ∧
    ∀ statement ∈ statements, statement.Throughout p ∧ statement.isInitialized = false

include kept inherits recovers

/-- A round adds a statement that has the property, or none. -/
theorem round_throughout (h : progress.Throughout p) (hs : inv s)
    (hround : round budget progress s = .ok (next, later)) : next.Throughout p ∧ inv later := by
  obtain ⟨statements, hprogram, hstatements⟩ := h
  rcases round_cases hround with ⟨read, hread, -, hnext⟩ | ⟨error, failed, hfails, -, rfl, rfl⟩
  · obtain ⟨hmade, hlater⟩ := Parser.makes_topLevelStatement kept inherits hs hread
    refine ⟨?_, hlater⟩
    cases read with
    | none => exact ⟨statements, hnext.trans hprogram, hstatements⟩
    | some statement =>
      refine ⟨statements ++ [statement], by simp [hnext, hprogram], ?_⟩
      exact List.forall_mem_append.mpr
        ⟨hstatements, List.forall_mem_singleton.mpr (hmade statement rfl)⟩
  · exact ⟨⟨statements, hprogram, hstatements⟩, recovers hs hfails⟩

theorem Reaches.throughout {rounds : ℕ} (hreaches : Reaches budget rounds progress s last later)
    (h : progress.Throughout p) (hs : inv s) : last.Throughout p := by
  induction hreaches with
  | refl => exact h
  | round _ first _ ih =>
    obtain ⟨hnext, hmiddle⟩ := round_throughout kept inherits recovers h hs first
    exact ih hnext hmiddle

/-- The program of a compilation has the property throughout. -/
theorem throughout_program {options : Options} {output : Output} (hs : inv s)
    (hrun : ofSession options s = .ok output) : output.program.Throughout p := by
  obtain ⟨rounds, last, later, hreaches, hprogram⟩ := reaches_of_ofSession hrun
  have hstart : ({} : Progress).Throughout p := ⟨[], rfl, nofun⟩
  obtain ⟨statements, hlast, hstatements⟩ :=
    hreaches.throughout kept inherits recovers hstart hs
  rw [hprogram, hlast]
  exact Parser.throughout_ofList inherits hstatements

omit kept inherits recovers in
/-- A text that is read at once, to a program that passes a test, and that is compiled. -/
theorem exists_of_programOf?_isOk (text : String) (test : Block → Bool)
    (hreads : (Parser.programOf? text).any test = true) (hruns : (ofText {} text).isOk = true) :
    ∃ session later program output, Session.ofText text = .ok session ∧
      Parser.program session = .ok program later ∧ test program = true ∧
      ofText {} text = .ok output := by
  obtain ⟨session, later, program, hsession, hprogram, htest⟩ :=
    Parser.exists_of_programOf? text test hreads
  cases houtput : ofText {} text with
  | error failure => simp [houtput, Except.isOk, Except.toBool] at hruns
  | ok output => exact ⟨session, later, program, output, hsession, hprogram, htest, rfl⟩

omit kept inherits recovers in
/-- A property that asks nothing of the tokens holds throughout every program that is read at once,
    and throughout every program that is compiled. -/
theorem throughout_of_inherits
    (inherits : Node.StatementsInherit (fun _ => True) (fun _ => True) p) :
    (∀ {s later : Session} {program : Block}, Parser.program s = .ok program later →
      program.Throughout p) ∧
    ∀ {options : Options} {output : Output},
      (∀ {s : Session}, ofSession options s = .ok output → output.program.Throughout p) ∧
      ∀ {text : String}, ofText options text = .ok output → output.program.Throughout p := by
  have hsession {options : Options} {output : Output} {s : Session}
      (hrun : ofSession options s = .ok output) : output.program.Throughout p :=
    throughout_program Session.kept_true inherits (fun _ _ => trivial) trivial hrun
  refine ⟨fun hrun => ?_, hsession, fun hrun => ?_⟩
  · exact (Parser.makes_program Session.kept_true inherits trivial hrun).1
  · unfold ofText at hrun
    split at hrun
    · exact hsession hrun
    · cases hrun

end Compilation

end SinFrontend
