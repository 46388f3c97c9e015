import SinFrontend.Proofs.Lines.Expressions

/-!
# Readers of statements on other lines

The readers of blocks, declarations, definitions and commands keep lines in what they read. Only
the reader of assignments looks at them: the value must begin on the line of the `let`. So the new
lines of two lines must differ, where these do.

* `statementRule_renames`: a statement is read on other lines, and stands there.
* `rule_renamesAll`, `descend_renamesAll`, `full_renamesAll`: so is every goal, in as many steps.
* `program_renames`, `topLevelStatement_renames`: so are whole programs and statements at the top.
-/

namespace SinFrontend.Parser

variable {ρ : ℕ → ℕ} {parse : Descent}

/-! ## Parts -/

theorem Renames.statement (form : Form) (line : ℕ) : Renames ρ (Statement.onLines ρ)
    (Pure.pure ⟨form, line⟩) (Pure.pure ⟨form.onLines ρ, ρ line⟩) :=
  .pure (Statement.mk form line)

theorem expectTypeStart_renames (line : ℕ) :
    Renames ρ id (expectTypeStart line) (expectTypeStart (ρ line)) :=
  peek_renames.bind_onLines fun next => .ite (.pure _) (.reject (.expectedType next.text) line)

theorem structName_renames : Renames ρ id structName structName := by
  unfold structName
  refine peek_renames.bind_onLines fun next => .ite ?_ ?_
  · exact advance_renames.bind_onLines fun token => .pure token.text
  · exact currentLine_renames.bind_onLines fun line => .reject _ line

section

variable (h : RenamesAll ρ parse)

include h

/-! ## Blocks -/

theorem statementsRule_renames :
    Renames ρ (Goal.statements.onLines ρ) (statementsRule parse) (statementsRule parse) := by
  unfold statementsRule
  refine skipSemicolons_renames.bind fun _ => atEnd_renames.bind fun ended => ?_
  refine (atPunctuation_renames _).bind fun closing => .ite (.pure []) ?_
  refine currentLine_renames.bind_onLines fun line => ?_
  refine (h (.statement false)).bind_onLines fun statement => ?_
  exact (h .statements).bind_onLines fun entries => .pure ((statement, line) :: entries)

theorem block_renames : Renames ρ (Block.onLines ρ) (block parse) (block parse) := by
  unfold block
  refine (h .statements).bind_onLines fun entries => ?_
  have hblock : Block.ofList ((Goal.statements.onLines ρ entries).filterMap (·.1)) =
      (Block.ofList (entries.filterMap (·.1))).onLines ρ := by
    rw [Block.onLines_ofList, Goal.onLines, List.filterMap_map, List.map_filterMap]
    rfl
  have hpasses : ((Goal.statements.onLines ρ entries).filter (·.1.isNone)).map (·.2) =
      ((entries.filter (·.1.isNone)).map (·.2)).map ρ := by
    simp [Goal.onLines, List.filter_map, Function.comp_def]
  simp only [hblock, hpasses, Block.onLines_isEmpty]
  refine .ite (.pure _) (Renames.bind ?_ fun _ => .pure _)
  generalize (entries.filter (·.1.isNone)).map (·.2) = lines
  rw [List.forM_eq_forM, List.forM_map]
  exact .forM (fun line => note_renames passNote line) _

theorem closedBlock_renames (context : String) :
    Renames ρ (Block.onLines ρ) (closedBlock parse context) (closedBlock parse context) :=
  (block_renames h).bind_onLines fun block =>
    (expectPunctuation_renames _ context).bind fun _ => .pure block

/-! ## Declarations and allocations -/

theorem typedName_renames (context : String) :
    Renames ρ id (typedName parse context) (typedName parse context) :=
  (h .typeName).bind fun type => (expectIdentifier_renames context).bind fun name =>
    (withPostfixedQualities_renames type).bind fun type => .pure (type, name)

theorem parametersRule_renames :
    Renames ρ (List.map (Statement.onLines ρ)) (parametersRule parse) (parametersRule parse) := by
  have hmore (parameter : Statement) : Renames ρ (List.map (Statement.onLines ρ))
      (do return parameter :: (← parse .parameters))
      (do return parameter.onLines ρ :: (← parse .parameters)) :=
    (h .parameters).bind_onLines fun params => .pure (parameter :: params)
  unfold parametersRule
  refine (atPunctuation_renames ")").bind fun closed => .ite (.pure []) ?_
  refine currentLine_renames.bind_onLines fun line => ?_
  refine (h (.statement true)).bind_onLines fun parameter => ?_
  cases parameter with
  | none => exact .reject _ line
  | some parameter =>
    dsimp only [Goal.onLines, Option.map_some]
    rw [Statement.isDeclaration_onLines]
    refine .ite ?_ (.reject_bind _ line)
    refine (takePunctuation_renames ",").bind fun taken => .ite (hmore parameter) ?_
    refine (atPunctuation_renames ")").bind fun closed => .ite (hmore parameter) ?_
    exact currentLine_renames.bind_onLines fun line => .reject_bind _ line

theorem formalParameters_renames : Renames ρ (List.map (Statement.onLines ρ))
    (formalParameters parse) (formalParameters parse) :=
  (h .parameters).bind_onLines fun params => moveAdvance_renames.bind fun _ => .pure params

theorem definitionBody_renames (missing empty : String) : Renames ρ (Block.onLines ρ)
    (definitionBody parse missing empty) (definitionBody parse missing empty) := by
  unfold definitionBody
  refine (takePunctuation_renames _).bind fun taken => .ite ?_ ?_
  · refine (atPunctuation_renames _).bind fun closed => .ite ?_ (closedBlock_renames h _)
    exact currentLine_renames.bind_onLines fun line =>
      (warn_renames empty line 111).bind fun _ => closedBlock_renames h _
  · exact currentLine_renames.bind_onLines fun line => .reject_bind _ line

omit h in
theorem structDeclaration_renames (line : ℕ) :
    Renames ρ (Statement.onLines ρ) (structDeclaration line) (structDeclaration (ρ line)) :=
  structName_renames.bind fun name => expectStatementEnd_renames.bind fun _ =>
    .statement (.declaration (.structNamed name .empty) name none false true []) line

theorem declaredValue_renames (isParameter : Bool) :
    Renames ρ id (declaredValue parse isParameter) (declaredValue parse isParameter) := by
  unfold declaredValue
  refine peek_renames.bind_onLines fun next => .ite (.ite ?_ ?_) (.pure none)
  · exact moveAdvance_renames.bind fun _ =>
      (h (.expression {})).bind fun value => .pure (some value)
  · exact currentLine_renames.bind_onLines fun line => .reject_bind _ line

theorem typedDeclaration_renames (line : ℕ) (isParameter : Bool) :
    Renames ρ (Statement.onLines ρ) (typedDeclaration parse line isParameter)
      (typedDeclaration parse (ρ line) isParameter) := by
  unfold typedDeclaration
  refine (expectTypeStart_renames line).bind fun _ => (typedName_renames h _).bind fun typed => ?_
  obtain ⟨type, name⟩ := typed
  refine (takePunctuation_renames "(").bind fun taken => .ite ?_ ?_
  · refine (formalParameters_renames h).bind_onLines fun params => ?_
    refine expectStatementEnd_renames.bind fun _ => ?_
    rw [← Statement.allOnLines_eq_map]
    exact .statement (.declaration type name none true false params) line
  · exact (declaredValue_renames h isParameter).bind fun value =>
      expectStatementEnd_renames.bind fun _ =>
        .statement (.declaration type name value false false []) line

theorem declaration_renames (line : ℕ) (isParameter : Bool) :
    Renames ρ (Statement.onLines ρ) (declaration parse line isParameter)
      (declaration parse (ρ line) isParameter) :=
  (takeKeyword_renames "struct").bind fun _ =>
    .ite (structDeclaration_renames line) (typedDeclaration_renames h line isParameter)

theorem allocation_renames (line : ℕ) :
    Renames ρ (Statement.onLines ρ) (allocation parse line) (allocation parse (ρ line)) := by
  unfold allocation
  refine (expectTypeStart_renames line).bind fun _ => (typedName_renames h _).bind fun typed => ?_
  obtain ⟨type, name⟩ := typed
  have hend (value : Option Expression) : Renames ρ (Statement.onLines ρ)
      (do expectStatementEnd; return (⟨.allocation type name value, line⟩ : Statement))
      (do expectStatementEnd; return (⟨.allocation type name value, ρ line⟩ : Statement)) :=
    expectStatementEnd_renames.bind fun _ => .statement (.allocation type name value) line
  refine .ite ?_ (previousLine_renames.bind_onLines fun line => .reject_bind _ line)
  refine (takeOperator_renames ":").bind fun taken => .ite ?_ ?_
  · have hvalue : Renames ρ id (some <$> parse (.expression {}))
        (some <$> parse (.expression {})) := (h (.expression {})).map_onLines fun _ => rfl
    exact hvalue.bind hend
  · exact (Renames.pure none).bind hend

/-! ## Definitions -/

omit h in
theorem demandReturn_renames (body : Block) (name : String) (line : ℕ) :
    Renames ρ id (demandReturn body name line) (demandReturn (body.onLines ρ) name (ρ line)) := by
  unfold demandReturn
  rw [Block.bodyReturns_onLines]
  rcases body.bodyReturns with error | _ | _
  · exact .throw (.rejected error)
  · exact .reject _ line
  · exact .pure ()

theorem functionDefinition_renames (line : ℕ) : Renames ρ (Statement.onLines ρ)
    (functionDefinition parse line) (functionDefinition parse (ρ line)) := by
  unfold functionDefinition
  refine (typedName_renames h _).bind fun typed => ?_
  obtain ⟨type, name⟩ := typed
  refine (takePunctuation_renames "(").bind fun taken => .ite ?_ (.reject_bind _ line)
  refine (formalParameters_renames h).bind_onLines fun params => ?_
  refine (definitionBody_renames h _ _).bind_onLines fun body => ?_
  refine (demandReturn_renames body name line).bind fun _ => ?_
  rw [← Statement.allOnLines_eq_map]
  exact .statement (.functionDefinition name type params body) line

theorem structDefinition_renames (line : ℕ) : Renames ρ (Statement.onLines ρ)
    (structDefinition parse line) (structDefinition parse (ρ line)) :=
  structName_renames.bind fun name => (definitionBody_renames h _ _).bind_onLines fun body =>
    .statement (.structDefinition name body) line

theorem definition_renames (line : ℕ) :
    Renames ρ (Statement.onLines ρ) (definition parse line) (definition parse (ρ line)) :=
  (takeKeyword_renames "struct").bind fun _ =>
    .ite (structDefinition_renames h line) (functionDefinition_renames h line)

/-! ## Simple statements -/

omit h in
theorem includeDirective_renames (line : ℕ) :
    Renames ρ (Statement.onLines ρ) (includeDirective line) (includeDirective (ρ line)) := by
  unfold includeDirective
  refine peek_renames.bind_onLines fun next => .ite ?_ (.reject _ line)
  exact advance_renames.bind_onLines fun token => expectStatementEnd_renames.bind fun _ =>
    .statement (.includeFile token.text) line

omit h in
theorem copyOperator_renames : Renames ρ id copyOperator copyOperator := by
  unfold copyOperator
  refine advance_renames.bind_onLines fun token => ?_
  dsimp only [Token.operator?_onLines]
  cases token.operator? with
  | none => exact .reject _ token.line
  | some op => exact .ite (.pure op) (.ite (.reject _ token.line) (.reject _ token.line))

/-- Two lines that differ become lines that differ, so a value that begins on another line than
    its `let` still does. -/
theorem assignment_renames (hρ : ρ.Injective) (line : ℕ) :
    Renames ρ (Statement.onLines ρ) (assignment parse line) (assignment parse (ρ line)) := by
  unfold assignment
  refine (h (.expression _)).bind fun target => copyOperator_renames.bind fun op => ?_
  refine (atPunctuation_renames ";").bind fun ended => atEnd_renames.bind fun atEnd => ?_
  refine currentLine_renames.bind_onLines fun current => ?_
  have hsame : (ρ current != ρ line) = (current != line) := by
    simp [bne, hρ.eq_iff]
  rw [hsame]
  refine .ite (.reject_bind _ line) ((h (.expression _)).bind fun value => ?_)
  refine expectStatementEnd_renames.bind fun _ => ?_
  cases op.compoundBase? with
  | none => exact .statement (.assignment target value) line
  | some base => exact .statement (.compoundAssignment target _ base) line

theorem movement_renames (line : ℕ) :
    Renames ρ (Statement.onLines ρ) (movement parse line) (movement parse (ρ line)) := by
  unfold movement
  refine (h (.expression _)).bind fun first => peek_renames.bind_onLines fun next => ?_
  dsimp only [Token.operator?_onLines]
  cases next.operator? with
  | none => exact .reject _ line
  | some op =>
    refine .ite (moveAdvance_renames.bind fun _ => ?_) (.reject_bind _ line)
    refine (h (.expression _)).bind fun second => expectStatementEnd_renames.bind fun _ => ?_
    exact .ite (.statement (.movement first second) line) (.statement (.movement second first) line)

theorem returnedValue_renames (line : ℕ) :
    Renames ρ id (returnedValue parse line) (returnedValue parse (ρ line)) := by
  unfold returnedValue
  refine (atPunctuation_renames ";").bind fun ended => .ite (.pure _) ?_
  refine (takeKeyword_renames "void").bind fun taken => .ite ?_ ?_
  · exact (atPunctuation_renames ";").bind fun ended => .ite (.pure _) (.reject_bind _ line)
  · exact (h (.expression _)).bind fun value => expectStatementEnd_renames.bind fun _ => .pure value

theorem callStatement_renames (line : ℕ) :
    Renames ρ (Statement.onLines ρ) (callStatement parse line) (callStatement parse (ρ line)) := by
  unfold callStatement
  refine (h (.expression _)).bind fun call => .ite ?_ (.reject_bind _ line)
  exact expectStatementEnd_renames.bind fun _ => .statement (.call call) line

theorem constructStatement_renames (line : ℕ) : Renames ρ (Statement.onLines ρ)
    (constructStatement parse line) (constructStatement parse (ρ line)) :=
  (h (.expression _)).bind fun target => (construction_renames h none).bind fun construction =>
    .statement (.construction target construction) line

/-! ## Branches -/

theorem condition_renames (line : ℕ) (missing : String) :
    Renames ρ id (condition parse line missing) (condition parse (ρ line) missing) := by
  unfold condition
  refine (takePunctuation_renames "(").bind fun taken => .ite ?_ (.reject_bind _ line)
  exact (h (.expression _)).bind fun condition =>
    (expectPunctuation_renames _ _).bind fun _ => .pure condition

theorem branch_renames : Renames ρ (Statement.onLines ρ) (branch parse) (branch parse) := by
  unfold branch
  refine currentLine_renames.bind_onLines fun line => ?_
  refine (h (.statement false)).bind_onLines fun statement => ?_
  have hread : Renames ρ (Statement.onLines ρ)
      (pure (statement.getD ⟨.scopedBlock .empty, line⟩))
      (pure ((Goal.onLines ρ (.statement false) statement).getD
        ⟨.scopedBlock .empty, ρ line⟩)) := by
    cases statement with
    | none => exact .statement (.scopedBlock .empty) line
    | some statement => exact .pure statement
  refine (takePunctuation_renames ";").bind fun taken => .ite hread ?_
  refine previous_renames.bind_onLines fun last => .ite hread ?_
  exact previousLine_renames.bind_onLines fun line => .reject_bind _ line

theorem conditional_renames (line : ℕ) :
    Renames ρ (Statement.onLines ρ) (conditional parse line) (conditional parse (ρ line)) := by
  unfold conditional
  refine (condition_renames h line _).bind fun condition => ?_
  refine (branch_renames h).bind_onLines fun first => ?_
  refine (takeKeyword_renames "else").bind fun taken => .ite ?_ ?_
  · exact (branch_renames h).bind_onLines fun second =>
      .statement (.ifElse condition first second) line
  · exact .statement (.ifThen condition first) line

theorem loop_renames (line : ℕ) :
    Renames ρ (Statement.onLines ρ) (loop parse line) (loop parse (ρ line)) :=
  (condition_renames h line _).bind fun condition => (branch_renames h).bind_onLines fun body =>
    .statement (.whileLoop condition body) line

/-! ## Statements -/

omit h in
theorem some_renames {p q : Parser Statement} (hp : Renames ρ (Statement.onLines ρ) p q) :
    Renames ρ (Option.map (Statement.onLines ρ)) (some <$> p) (some <$> q) :=
  hp.map_onLines fun _ => rfl

theorem keywordStatement_renames (hρ : ρ.Injective) (isParameter : Bool) (token : Token) :
    Renames ρ (Option.map (Statement.onLines ρ)) (keywordStatement parse isParameter token)
      (keywordStatement parse isParameter (token.onLines ρ)) := by
  unfold keywordStatement
  dsimp only [Token.onLines_text, Token.onLines_line]
  split
  · exact some_renames (includeDirective_renames _)
  · exact some_renames (declaration_renames h _ isParameter)
  · exact some_renames (allocation_renames h _)
  · exact some_renames (assignment_renames h hρ _)
  · exact some_renames (movement_renames h _)
  · exact (returnedValue_renames h token.line).bind fun value =>
      .pure (some (Statement.mk (.returnValue value) token.line))
  · exact some_renames (conditional_renames h _)
  · exact some_renames (loop_renames h _)
  · exact some_renames (definition_renames h _)
  · exact some_renames (constructStatement_renames h _)
  · exact .pure none
  · exact .reject _ token.line

theorem statementRule_renames (hρ : ρ.Injective) (isParameter : Bool) :
    Renames ρ (Option.map (Statement.onLines ρ)) (statementRule parse isParameter)
      (statementRule parse isParameter) := by
  unfold statementRule
  refine advance_renames.bind_onLines fun token => ?_
  dsimp only [Token.onLines_kind]
  have hother : Renames ρ (Option.map (Statement.onLines ρ))
      (if token.isOperator Operator.controlTransfer.symbol then do
        retreat
        some <$> callStatement parse token.line
      else if token.isPunctuation Grouping.brace.opening then
        return some ⟨.scopedBlock (← closedBlock parse "to close scoped block"), token.line⟩
      else
        reject (.invalidStatementStart token.text) token.line)
      (if token.isOperator Operator.controlTransfer.symbol then do
        retreat
        some <$> callStatement parse (ρ token.line)
      else if token.isPunctuation Grouping.brace.opening then
        return some ⟨.scopedBlock (← closedBlock parse "to close scoped block"), ρ token.line⟩
      else
        reject (.invalidStatementStart token.text) (ρ token.line)) := by
    refine .ite ?_ (.ite ?_ (.reject _ token.line))
    · exact retreat_renames.bind fun _ => some_renames (callStatement_renames h _)
    · exact (closedBlock_renames h _).bind_onLines fun block =>
        .pure (some (Statement.mk (.scopedBlock block) token.line))
  cases token.kind with
  | keyword => exact keywordStatement_renames h hρ isParameter token
  | eof => exact .reject _ token.line
  | _ => exact hother

/-! ## The descent -/

/-- Rules that ask for readings of which each does on other lines what it does on the given ones
    are such readings themselves. -/
theorem rule_renamesAll (hρ : ρ.Injective) : RenamesAll ρ (rule parse) := by
  intro α goal
  cases goal with
  | typeName => exact typeNameRule_renames h
  | members => exact tupleMembers_renames h
  | expression context => exact expressionRule_renames h context
  | operations left floor context => exact operationsRule_renames h left floor context
  | elements context => exact elementsRule_renames h context
  | initializers => exact initializersRule_renames h
  | statement isParameter => exact statementRule_renames h hρ isParameter
  | statements => exact statementsRule_renames h
  | parameters => exact parametersRule_renames h

end

theorem descend_renamesAll (hρ : ρ.Injective) (steps : ℕ) : RenamesAll ρ (descend steps) := by
  induction steps with
  | zero => exact fun _ _ => .throw .unfinished
  | succ steps ih => exact rule_renamesAll ih hρ

/-- The number of steps depends on how many tokens there are, and not on their lines. -/
theorem full_renamesAll (hρ : ρ.Injective) : RenamesAll ρ full := by
  intro α goal s
  have hsteps : stepsFor (s.onLines ρ).cursor = stepsFor s.cursor := by
    rw [stepsFor, Session.onLines_cursor, Cursor.onLines_size, stepsFor]
  show descend (stepsFor (s.onLines ρ).cursor) goal (s.onLines ρ) = _
  rw [hsteps]
  exact descend_renamesAll hρ _ goal s

/-! ## Whole trees -/

theorem statementBlock_renames (hρ : ρ.Injective) :
    Renames ρ (Block.onLines ρ) statementBlock statementBlock :=
  block_renames (full_renamesAll hρ)

theorem program_renames (hρ : ρ.Injective) : Renames ρ (Block.onLines ρ) program program := by
  unfold program
  refine (statementBlock_renames hρ).bind_onLines fun block => ?_
  refine atEnd_renames.bind fun ended => .ite (.pure block) ?_
  exact peek_renames.bind_onLines fun next => .reject_bind _ next.line

theorem topLevelStatement_renames (hρ : ρ.Injective) :
    Renames ρ (Option.map (Statement.onLines ρ)) topLevelStatement topLevelStatement := by
  have hstart : Renames ρ id
      (modify fun session => { session with statementStart := session.cursor.passed.length })
      (modify fun session => { session with statementStart := session.cursor.passed.length }) := by
    intro s
    show EStateM.Result.ok () _ = EStateM.Result.ok () _
    simp [Session.onLines]
  unfold topLevelStatement
  refine skipSemicolons_renames.bind fun _ => atEnd_renames.bind fun ended => .ite (.pure none) ?_
  exact hstart.bind fun _ => full_renamesAll hρ (.statement false)

end SinFrontend.Parser
