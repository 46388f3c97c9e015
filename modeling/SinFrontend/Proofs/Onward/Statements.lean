import SinFrontend.Proofs.Onward.Expressions

/-!
# Where readers of statements leave a session

The readers of blocks, declarations, definitions and commands end onward of where they start, as
long as the readings that they ask for do. With that, all rules do, and so does the descent from
rule to rule in any number of steps.

* `statementRule_leadsFirst`: a statement reads its first token, whatever comes of it.
* `rule_leadsAll`: rules that ask for readings that end onward are such readings.
* `descend_leadsAll`, `full_leadsAll`: so is the descent, unless it uses up its steps.
* `expression_leads`, `program_leads`: so are the readings of whole trees.
-/

namespace SinFrontend.Parser

variable {loose : Prop} {parse : Descent}

/-! ## Parts -/

theorem expectIdentifier_leads (context : String) : LeadsOn loose (expectIdentifier context) := by
  unfold expectIdentifier
  refine .bind looks_peek.on fun _ => .ite (fun _ => ?_) fun _ => ?_
  · exact .bind advance_leads fun _ => .pure _
  · exact .bind looks_currentLine.on fun _ => .reject

theorem expectStatementEnd_leads : LeadsOn loose expectStatementEnd := by
  unfold expectStatementEnd
  refine .bind looks_peek.on fun _ => .ite (fun _ => .pure _) fun _ => ?_
  exact .bind looks_previousLine.on fun _ => .reject

theorem expectTypeStart_leads (line : ℕ) : LeadsOn loose (expectTypeStart line) := by
  unfold expectTypeStart
  exact .bind looks_peek.on fun _ => .ite (fun _ => .pure _) fun _ => .reject

theorem structName_leads : LeadsOn loose structName := by
  unfold structName
  refine .bind looks_peek.on fun _ => .ite (fun _ => ?_) fun _ => ?_
  · exact .bind advance_leads fun _ => .pure _
  · exact .bind looks_currentLine.on fun _ => .reject

theorem onward_advanceBy (s : Session) (count : ℕ) : s.Onward (s.on (·.advanceBy count)) := by
  induction count generalizing s with
  | zero => exact .refl
  | succ count ih => exact (Session.Onward.advance .refl).trans (ih (s.on .advance))

theorem skipSemicolons_leads : LeadsOn loose skipSemicolons :=
  fun s _ _ => .ok (onward_advanceBy s _) trivial

theorem note_leads (message : String) (line : ℕ) : LeadsOn loose (note message line) :=
  record_leads _ fun _ _ _ => id

section

variable (h : LeadsAll loose parse)

include h

/-! ## Blocks -/

theorem statementsRule_leads : LeadsOn loose (statementsRule parse) := by
  unfold statementsRule
  refine .bind skipSemicolons_leads fun _ => .bind looks_atEnd.on fun _ => ?_
  refine .bind (looks_atPunctuation _).on fun _ => .ite (fun _ => .pure _) fun _ => ?_
  refine .bind looks_currentLine.on fun _ => .bind (h.statement false).on fun _ => ?_
  exact .bind h.statements fun _ => .pure _

theorem block_leads : LeadsOn loose (block parse) := by
  unfold block
  refine .bind h.statements fun entries => .ite (fun _ => .pure _) fun _ => ?_
  exact .bind (forM_leads (note_leads passNote) _) fun _ => .pure _

theorem closedBlock_leads (context : String) : LeadsOn loose (closedBlock parse context) :=
  .bind (block_leads h) fun _ => .bind (expectPunctuation_leads _ _) fun _ => .pure _

/-! ## Declarations and allocations -/

theorem typedName_leads (context : String) : LeadsOn loose (typedName parse context) :=
  .bind h.typeName.on fun type => .bind (expectIdentifier_leads context) fun _ =>
    .bind (withPostfixedQualities_leads (fun _ _ => trivial) type) fun _ => .pure _

theorem parametersRule_leads : LeadsOn loose (parametersRule parse) := by
  have hmore (parameter : Statement) :
      LeadsOn loose (do return parameter :: (← parse .parameters)) :=
    .bind h.parameters fun _ => .pure _
  unfold parametersRule
  refine .bind (looks_atPunctuation _).on fun _ => .ite (fun _ => .pure _) fun _ => ?_
  refine .bind looks_currentLine.on fun line => .bind (h.statement true).on fun parameter => ?_
  split
  next parameter =>
    refine .ite (fun _ => ?_) fun _ => .reject_bind
    refine .bind (takePunctuation_leads ",") fun _ => .ite (fun _ => hmore _) fun _ => ?_
    refine .bind (looks_atPunctuation _).on fun _ => .ite (fun _ => hmore _) fun _ => ?_
    exact .bind looks_currentLine.on fun _ => .reject_bind
  next => exact .reject

theorem formalParameters_leads : LeadsOn loose (formalParameters parse) :=
  .bind h.parameters fun _ => .bind move_leads fun _ => .pure _

theorem definitionBody_leads (missing empty : String) :
    LeadsOn loose (definitionBody parse missing empty) := by
  unfold definitionBody
  refine .bind (takePunctuation_leads _) fun _ => .ite (fun _ => ?_) fun _ => ?_
  · refine .bind (looks_atPunctuation _).on fun _ => .ite (fun _ => ?_) fun _ => ?_
    · refine .bind looks_currentLine.on fun _ => .bind ?_ fun _ => closedBlock_leads h _
      exact record_leads _ fun _ _ _ => id
    · exact closedBlock_leads h _
  · exact .bind looks_currentLine.on fun _ => .reject_bind

omit h in
theorem structDeclaration_leads (line : ℕ) : LeadsOn loose (structDeclaration line) :=
  .bind structName_leads fun _ => .bind expectStatementEnd_leads fun _ => .pure _

theorem declaredValue_leads (isParameter : Bool) :
    LeadsOn loose (declaredValue parse isParameter) := by
  unfold declaredValue
  refine .bind looks_peek.on fun _ => .ite (fun _ => ?_) fun _ => .pure _
  refine .ite (fun _ => ?_) fun _ => .bind looks_currentLine.on fun _ => .reject_bind
  exact .bind move_leads fun _ => .bind (h.expression _).on fun _ => .pure _

theorem typedDeclaration_leads (line : ℕ) (isParameter : Bool) :
    LeadsOn loose (typedDeclaration parse line isParameter) := by
  unfold typedDeclaration
  refine .bind (expectTypeStart_leads line) fun _ => .bind (typedName_leads h _) fun typed => ?_
  refine .bind (takePunctuation_leads "(") fun _ => .ite (fun _ => ?_) fun _ => ?_
  · exact .bind (formalParameters_leads h) fun _ => .bind expectStatementEnd_leads fun _ => .pure _
  · exact .bind (declaredValue_leads h isParameter) fun _ =>
      .bind expectStatementEnd_leads fun _ => .pure _

theorem declaration_leads (line : ℕ) (isParameter : Bool) :
    LeadsOn loose (declaration parse line isParameter) := by
  unfold declaration
  refine .bind (takeKeyword_leads "struct") fun _ => .ite (fun _ => ?_) fun _ => ?_
  · exact structDeclaration_leads line
  · exact typedDeclaration_leads h line isParameter

theorem allocation_leads (line : ℕ) : LeadsOn loose (allocation parse line) := by
  unfold allocation
  refine .bind (expectTypeStart_leads line) fun _ => .bind (typedName_leads h _) fun typed => ?_
  have hend (value : Option Expression) : LeadsOn loose
      (do expectStatementEnd; return (⟨.allocation typed.1 typed.2 value, line⟩ : Statement)) :=
    .bind expectStatementEnd_leads fun _ => .pure _
  refine .ite (fun _ => ?_) fun _ => .bind looks_previousLine.on fun _ => .reject_bind
  refine .bind (takeOperator_leads ":") fun _ => ?_
  split
  · exact .bind ((h.expression _).on.map some) hend
  · exact .bind (.pure none) hend

/-! ## Definitions -/

omit h in
theorem demandReturn_leads (body : Block) (name : String) (line : ℕ) :
    LeadsOn loose (demandReturn body name line) := by
  unfold demandReturn
  split
  · exact .pure _
  · exact .reject
  · exact fun _ _ _ => .rejected .refl

theorem functionDefinition_leads (line : ℕ) : LeadsOn loose (functionDefinition parse line) := by
  unfold functionDefinition
  refine .bind (typedName_leads h _) fun typed => .bind (takePunctuation_leads "(") fun _ => ?_
  refine .ite (fun _ => ?_) fun _ => .reject_bind
  refine .bind (formalParameters_leads h) fun _ => .bind (definitionBody_leads h _ _) fun _ => ?_
  exact .bind (demandReturn_leads _ _ line) fun _ => .pure _

theorem structDefinition_leads (line : ℕ) : LeadsOn loose (structDefinition parse line) :=
  .bind structName_leads fun _ => .bind (definitionBody_leads h _ _) fun _ => .pure _

theorem definition_leads (line : ℕ) : LeadsOn loose (definition parse line) := by
  unfold definition
  refine .bind (takeKeyword_leads "struct") fun _ => .ite (fun _ => ?_) fun _ => ?_
  · exact structDefinition_leads h line
  · exact functionDefinition_leads h line

/-! ## Simple statements -/

omit h in
theorem includeDirective_leads (line : ℕ) : LeadsOn loose (includeDirective line) := by
  unfold includeDirective
  refine .bind looks_peek.on fun _ => .ite (fun _ => ?_) fun _ => .reject
  exact .bind advance_leads fun _ => .bind expectStatementEnd_leads fun _ => .pure _

omit h in
theorem copyOperator_leads : LeadsOn loose copyOperator := by
  unfold copyOperator
  refine .bind advance_leads fun token => ?_
  split
  · exact .ite (fun _ => .pure _) fun _ => .ite (fun _ => .reject) fun _ => .reject
  · exact .reject

theorem assignment_leads (line : ℕ) : LeadsOn loose (assignment parse line) := by
  unfold assignment
  refine .bind (h.expression _).on fun target => .bind copyOperator_leads fun op => ?_
  refine .bind (looks_atPunctuation _).on fun _ => .bind looks_atEnd.on fun _ => ?_
  refine .bind looks_currentLine.on fun _ => .ite (fun _ => .reject_bind) fun _ => ?_
  refine .bind (h.expression _).on fun _ => .bind expectStatementEnd_leads fun _ => ?_
  split
  · exact .pure _
  · exact .pure _

theorem movement_leads (line : ℕ) : LeadsOn loose (movement parse line) := by
  unfold movement
  refine .bind (h.expression _).on fun first => .bind looks_peek.on fun _ => ?_
  split
  · refine .ite (fun _ => .bind move_leads fun _ => ?_) fun _ => .reject_bind
    refine .bind (h.expression _).on fun _ => .bind expectStatementEnd_leads fun _ => ?_
    exact .ite (fun _ => .pure _) fun _ => .pure _
  · exact .reject

theorem returnedValue_leads (line : ℕ) : LeadsOn loose (returnedValue parse line) := by
  unfold returnedValue
  refine .bind (looks_atPunctuation _).on fun _ => .ite (fun _ => .pure _) fun _ => ?_
  refine .bind (takeKeyword_leads _) fun _ => .ite (fun _ => ?_) fun _ => ?_
  · exact .bind (looks_atPunctuation _).on fun _ => .ite (fun _ => .pure _) fun _ => .reject_bind
  · exact .bind (h.expression _).on fun _ => .bind expectStatementEnd_leads fun _ => .pure _

/-- A call is read from its `@` on. -/
theorem callStatement_leadsFirst (line : ℕ) :
    LeadsFirst loose (fun _ _ => True) (callStatement parse line) := by
  unfold callStatement
  refine (h.expression _).bind fun call => ?_
  refine .ite (fun _ => ?_) fun _ => .reject_bind
  exact LeadsOn.bind expectStatementEnd_leads fun _ => .pure _

theorem constructStatement_leads (line : ℕ) : LeadsOn loose (constructStatement parse line) :=
  .bind (h.expression _).on fun _ => .bind (construction_leads h none) fun _ => .pure _

/-! ## Branches -/

theorem condition_leads (line : ℕ) (missing : String) :
    LeadsOn loose (condition parse line missing) := by
  unfold condition
  refine .bind (takePunctuation_leads "(") fun _ => .ite (fun _ => ?_) fun _ => .reject_bind
  exact .bind (h.expression _).on fun _ => .bind (expectPunctuation_leads _ _) fun _ => .pure _

theorem branch_leads : LeadsOn loose (branch parse) := by
  unfold branch
  refine .bind looks_currentLine.on fun _ => .bind (h.statement false).on fun _ => ?_
  refine .bind (takePunctuation_leads ";") fun _ => .ite (fun _ => .pure _) fun _ => ?_
  refine .bind looks_previous.on fun _ => .ite (fun _ => .pure _) fun _ => ?_
  exact .bind looks_previousLine.on fun _ => .reject_bind

theorem conditional_leads (line : ℕ) : LeadsOn loose (conditional parse line) := by
  unfold conditional
  refine .bind (condition_leads h line _) fun _ => .bind (branch_leads h) fun _ => ?_
  refine .bind (takeKeyword_leads "else") fun _ => .ite (fun _ => ?_) fun _ => .pure _
  exact .bind (branch_leads h) fun _ => .pure _

theorem loop_leads (line : ℕ) : LeadsOn loose (loop parse line) :=
  .bind (condition_leads h line _) fun _ => .bind (branch_leads h) fun _ => .pure _

/-! ## Statements -/

theorem keywordStatement_leads (isParameter : Bool) (token : Token) :
    LeadsOn loose (keywordStatement parse isParameter token) := by
  unfold keywordStatement
  split
  · exact (includeDirective_leads _).map some
  · exact (declaration_leads h _ isParameter).map some
  · exact (allocation_leads h _).map some
  · exact (assignment_leads h _).map some
  · exact (movement_leads h _).map some
  · exact .bind (returnedValue_leads h _) fun _ => .pure _
  · exact (conditional_leads h _).map some
  · exact (loop_leads h _).map some
  · exact (definition_leads h _).map some
  · exact (constructStatement_leads h _).map some
  · exact .pure _
  · exact .reject

/-- A statement reads at least its first token, or finds the end of input. -/
theorem statementRule_leadsFirst (isParameter : Bool) :
    LeadsFirst loose (fun _ _ => True) (statementRule parse isParameter) := by
  unfold statementRule
  refine advance_leadsFirst.bind fun token => ?_
  split
  · exact (keywordStatement_leads h isParameter token).leads
  · exact .reject
  next _ hother =>
    refine .ite (fun _ => ?_) fun _ => .ite (fun _ => ?_) fun _ => .reject
    · have hcall := (callStatement_leadsFirst h token.line).map some
      exact (retreat_leads hcall).mono (fun s hs => hs.2 hother) fun _ _ => id
    · exact (LeadsOn.bind (closedBlock_leads h _) fun _ => .pure _).leads

/-! ## The descent -/

/-- Rules that ask for readings that end onward are such readings themselves. -/
theorem rule_leadsAll : LeadsAll loose (rule parse) where
  typeName := typeNameRule_leadsFirst h
  members := tupleMembers_leads h
  expression := expressionRule_leadsFirst h
  operations := operationsRule_leads h
  elements := elementsRule_leads h
  initializers := initializersRule_leads h
  statement := statementRule_leadsFirst h
  statements := statementsRule_leads h
  parameters := parametersRule_leads h

end

/-- Readings that never leave a value need only end onward. -/
theorem leadsAll_of_never (h : ∀ {α : Type} (goal : Goal α) (s : Session),
    EndsOnward loose (s.on .advance) (fun _ _ => False) (parse goal s)) : LeadsAll loose parse :=
  have hfirst {α : Type} (goal : Goal α) (post : α → Session → Prop) :
      LeadsFirst loose post (parse goal) := fun s _ => (h goal s).mono fun _ _ => False.elim
  have hon {α : Type} (goal : Goal α) : LeadsOn loose (parse goal) :=
    (hfirst goal fun _ _ => True).on
  { typeName := hfirst _ _
    members := (hfirst _ _).leads
    expression := fun _ => hfirst _ _
    operations := fun _ _ _ => hon _
    elements := fun _ => hon _
    initializers := hon _
    statement := fun _ => hfirst _ _
    statements := hon _
    parameters := hon _ }

/-- In any number of steps, readings end onward, unless they use up their steps. -/
theorem descend_leadsAll (steps : ℕ) : LeadsAll True (descend steps) := by
  induction steps with
  | zero => exact leadsAll_of_never fun _ _ => .unfinished trivial
  | succ steps ih => exact rule_leadsAll ih

theorem Leads.full {α : Type} {goal : Goal α} {pre : Session → Prop} {post : α → Session → Prop}
    (h : ∀ steps, Leads loose pre post (descend steps goal)) : Leads loose pre post (full goal) :=
  fun s hs hpre => h (stepsFor s.cursor) hs hpre

theorem LeadsFirst.full {α : Type} {goal : Goal α} {post : α → Session → Prop}
    (h : ∀ steps, LeadsFirst loose post (descend steps goal)) : LeadsFirst loose post (full goal) :=
  fun s hs => h (stepsFor s.cursor) hs

/-- So do readings in as many steps as the tokens at hand may need. -/
theorem full_leadsAll : LeadsAll True full where
  typeName := .full fun steps => (descend_leadsAll steps).typeName
  members := .full fun steps => (descend_leadsAll steps).members
  expression context := .full fun steps => (descend_leadsAll steps).expression context
  operations left floor context :=
    .full fun steps => (descend_leadsAll steps).operations left floor context
  elements context := .full fun steps => (descend_leadsAll steps).elements context
  initializers := .full fun steps => (descend_leadsAll steps).initializers
  statement isParameter := .full fun steps => (descend_leadsAll steps).statement isParameter
  statements := .full fun steps => (descend_leadsAll steps).statements
  parameters := .full fun steps => (descend_leadsAll steps).parameters

/-! ## Whole trees -/

theorem expression_leads (context : Context) : LeadsOn True (expression context) :=
  (full_leadsAll.expression context).on

theorem statementBlock_leads : LeadsOn True statementBlock :=
  block_leads full_leadsAll

theorem program_leads : LeadsOn True program := by
  refine .bind statementBlock_leads fun block => .bind looks_atEnd.on fun ended => ?_
  exact .ite (fun _ => .pure _) fun _ => .bind looks_peek.on fun _ => .reject_bind

end SinFrontend.Parser
