import SinFrontend.Proofs.Onward.Statements
import SinFrontend.Proofs.Tightening
import SinFrontend.Proofs.Trees.Statements

/-!
# Semicolons behind simple statements

The check at the end of a simple statement lets a comma and a closing parenthesis through beside the
semicolon, since the statement may be a parameter, and does not ask whether it is one. But no
statement begins with a comma or a closing parenthesis, no block ends in front of one, and no `else`
stands there. Whatever is around a statement that ends in this way is rejected, unless it is a list
of parameters. So nothing changes if the semicolon is demanded at once.

* `Parser.strictly`: the descent that demands the semicolon behind every simple statement that is no
  parameter.
* `Parser.ended_statementRule`: what stands behind a simple statement.
* `Parser.statementRule_stuck`, `Parser.statementsRule_stuck`, `Parser.branchEnd_stuck`: in front of
  a comma nothing goes on.
* `Parser.StrictAll`, `Parser.rule_strictAll`: how the strict rules differ from the others.
* `program_iff_strictProgram`: programs are the same, whether the semicolon is demanded or not.
-/

namespace SinFrontend

/-- Whether a semicolon ends a statement, unless it is a parameter. -/
def Statement.isSimple (statement : Statement) : Bool :=
  match statement.form with
  | .includeFile .. | .declaration .. | .allocation .. | .assignment .. | .compoundAssignment ..
  | .movement .. | .returnValue .. | .call .. => true
  | _ => false

/-- A comma or a closing parenthesis lies ahead. -/
def Session.Stuck (session : Session) : Prop :=
  session.cursor.current.isPunctuation "," = true ∨
    session.cursor.current.isPunctuation ")" = true

namespace Session.Stuck

variable {s : Session}

theorem kind_eq (h : s.Stuck) : s.cursor.current.kind = .punctuation := by
  rcases h with h | h <;> exact Parser.kind_of_isPunctuation h

/-- No other symbol lies ahead. -/
theorem isPunctuation (h : s.Stuck) {mark : String} (hcomma : "," ≠ mark) (hparen : ")" ≠ mark) :
    s.cursor.current.isPunctuation mark = false := by
  rcases h with h | h
  · exact Parser.isPunctuation_of_ne h hcomma
  · exact Parser.isPunctuation_of_ne h hparen

theorem isKeyword (h : s.Stuck) (word : String) : s.cursor.current.isKeyword word = false := by
  simp [Token.isKeyword, Token.hasForm, h.kind_eq]

theorem isOperator (h : s.Stuck) (symbol : String) :
    s.cursor.current.isOperator symbol = false := by
  simp [Token.isOperator, Token.hasForm, h.kind_eq]

theorem atEnd (h : s.Stuck) : s.atEnd = false := by
  simp [Session.atEnd, Cursor.atEnd, h.kind_eq]

end Session.Stuck

namespace Parser

variable {α β : Type} {parse parse' : Descent}

/-! ## The strict descent -/

/-- Demands the semicolon behind a simple statement. -/
def demandSemicolon (read : Option Statement) : Parser Unit := do
  if read.any Statement.isSimple then
    unless ← atPunctuation ";" do
      reject .missingSemicolon (← previousLine)

/-- The rules of statements, with the semicolon demanded behind every statement that is no
    parameter. The statements inside others are read by `strict`, and types and expressions by the
    rules of `parse`. -/
def strictRule (parse strict : Descent) : Descent
  | _, .statement isParameter => do
    let read ← statementRule strict isParameter
    unless isParameter do
      demandSemicolon read
    return read
  | _, .statements => statementsRule strict
  | _, .parameters => parametersRule strict
  | _, goal => rule parse goal

/-- Reads a goal in a number of steps, strictly. -/
def strictly : ℕ → Descent
  | 0 => fun _ _ => throw .unfinished
  | steps + 1 => strictRule (descend steps) (strictly steps)

/-- Reads goals strictly, with as many steps as the tokens at hand may need. -/
def fullStrictly : Descent := fun _ goal => do
  strictly (stepsFor (← get).cursor) goal

/-- A whole program, read strictly. -/
def strictProgram : Parser Block := do
  let program ← block fullStrictly
  unless ← atEnd do
    let next ← peek
    reject (.invalidStatementStart next.text) next.line
  return program

theorem demandSemicolon_run (read : Option Statement) (s : Session) :
    demandSemicolon read s =
      if !read.any Statement.isSimple || s.cursor.current.isPunctuation ";" then .ok () s
      else .error (.rejected ⟨.missingSemicolon, s.cursor.previous.line⟩) s := by
  cases hsimple : read.any Statement.isSimple <;>
    cases hmark : s.cursor.current.isPunctuation ";" <;>
      simp [demandSemicolon, hsimple, hmark]

/-! ## Ends of simple statements -/

/-- Whatever a parser reads, `post` holds of it and where it ends. -/
def Leaves (post : α → Session → Prop) (p : Parser α) : Prop :=
  ∀ ⦃s a later⦄, p s = .ok a later → post a later

/-- A simple statement ends in front of its semicolon, or of what may follow a parameter. -/
def Ended (statement : Statement) (s : Session) : Prop :=
  statement.isSimple = true → s.cursor.current.isPunctuation ";" = true ∨ s.Stuck

theorem ended_of_compound {statement : Statement} (h : statement.isSimple = false) (s : Session) :
    Ended statement s :=
  fun hsimple => absurd (h.symm.trans hsimple) Bool.false_ne_true

section

variable {post : α → Session → Prop} {p q : Parser α} {f : β → Parser α}

theorem Leaves.skip {p : Parser β} (hf : ∀ b, Leaves post (f b)) : Leaves post (p >>= f) := by
  intro s a later hrun
  obtain ⟨b, middle, -, hrun⟩ := exists_of_bind hrun
  exact hf b hrun

theorem Leaves.pure {a : α} (h : ∀ s, post a s) : Leaves post (pure a) := by
  rintro s _ _ ⟨⟩
  exact h s

theorem Leaves.reject {cause : Cause} {line : ℕ} : Leaves post (Parser.reject cause line) :=
  fun _ _ _ hrun => nomatch hrun

theorem Leaves.reject_bind {cause : Cause} {line : ℕ} :
    Leaves post (Parser.reject cause line >>= f) :=
  fun _ _ _ hrun => nomatch hrun

theorem Leaves.ite {c : Prop} [Decidable c] (yes : c → Leaves post p) (no : ¬c → Leaves post q) :
    Leaves post (if c then p else q) := by
  split
  · exact yes ‹_›
  · exact no ‹_›

end

/-- What ends a statement lies ahead. -/
theorem leaves_expectStatementEnd :
    Leaves (fun _ s => s.cursor.current.isPunctuation ";" = true ∨ s.Stuck) expectStatementEnd := by
  intro s a later hrun
  simp only [expectStatementEnd, bind_run, peek_run, ite_run] at hrun
  split at hrun
  next hend =>
    cases hrun
    simpa [Session.Stuck, or_assoc] using hend
  next => cases hrun

theorem leaves_ended (statement : Statement) :
    Leaves Ended (do expectStatementEnd; return statement) := by
  intro s a later hrun
  obtain ⟨_, middle, hend, hrun⟩ := exists_of_bind hrun
  cases hrun
  exact fun _ => leaves_expectStatementEnd hend

theorem ended_includeDirective (line : ℕ) : Leaves Ended (includeDirective line) :=
  .skip fun _ => .ite (fun _ => .skip fun _ => leaves_ended _) fun _ => .reject

theorem ended_declaration (line : ℕ) (isParameter : Bool) :
    Leaves Ended (declaration parse line isParameter) := by
  refine .skip fun _ => .ite (fun _ => .skip fun _ => leaves_ended _) fun _ => ?_
  refine .skip fun _ => .skip fun typed => .skip fun _ => .ite (fun _ => ?_) fun _ => ?_
  · exact .skip fun _ => leaves_ended _
  · exact .skip fun _ => leaves_ended _

theorem ended_allocation (line : ℕ) : Leaves Ended (allocation parse line) := by
  refine .skip fun _ => .skip fun typed => .ite (fun _ => ?_) fun _ => .skip fun _ => .reject_bind
  refine .skip fun _ => .ite (fun _ => ?_) fun _ => ?_
  · exact .skip fun _ => leaves_ended _
  · exact .skip fun _ => leaves_ended _

theorem ended_assignment (line : ℕ) : Leaves Ended (assignment parse line) := by
  refine .skip fun _ => .skip fun op => .skip fun _ => .skip fun _ => .skip fun _ => ?_
  refine .ite (fun _ => .reject_bind) fun _ => .skip fun _ => ?_
  cases op.compoundBase? with
  | none => exact leaves_ended _
  | some base => exact leaves_ended _

theorem ended_movement (line : ℕ) : Leaves Ended (movement parse line) := by
  refine .skip fun first => .skip fun next => ?_
  cases next.operator? with
  | none => exact .reject
  | some op =>
    refine .ite (fun _ => .skip fun _ => .skip fun second => ?_) fun _ => .reject_bind
    cases op == .leftArrow with
    | true => exact leaves_ended _
    | false => exact leaves_ended _

theorem ended_callStatement (line : ℕ) : Leaves Ended (callStatement parse line) :=
  .skip fun _ => .ite (fun _ => leaves_ended _) fun _ => .reject_bind

/-- Also a return without a value ends in front of its semicolon. -/
theorem leaves_returnedValue (line : ℕ) :
    Leaves (fun _ s => s.cursor.current.isPunctuation ";" = true ∨ s.Stuck)
      (returnedValue parse line) := by
  intro s value later hrun
  obtain ⟨marked, _, hmarked, hrun⟩ := exists_of_bind hrun
  cases hmarked
  split at hrun
  next hmark =>
    cases hrun
    exact .inl hmark
  next =>
    obtain ⟨taken, middle, -, hrun⟩ := exists_of_bind hrun
    split at hrun
    next =>
      obtain ⟨marked, _, hmarked, hrun⟩ := exists_of_bind hrun
      cases hmarked
      split at hrun
      next hmark =>
        cases hrun
        exact .inl hmark
      next => cases hrun
    next =>
      obtain ⟨value, _, -, hrun⟩ := exists_of_bind hrun
      obtain ⟨_, _, hend, hrun⟩ := exists_of_bind hrun
      cases hrun
      exact leaves_expectStatementEnd hend

/-- A statement that is read ends in front of its semicolon if it is simple. -/
def EndedIfRead (read : Option Statement) (s : Session) : Prop :=
  ∀ statement, read = some statement → Ended statement s

theorem endedIfRead_none (s : Session) : EndedIfRead none s := by
  rintro _ ⟨⟩

theorem leaves_some {p : Parser Statement} (h : Leaves Ended p) :
    Leaves EndedIfRead (some <$> p) := by
  intro s read later hrun
  rw [map_eq_pure_bind] at hrun
  obtain ⟨statement, middle, hp, hrun⟩ := exists_of_bind hrun
  cases hrun
  rintro _ ⟨⟩
  exact h hp

theorem ended_keywordStatement (isParameter : Bool) (token : Token) :
    Leaves EndedIfRead (keywordStatement parse isParameter token) := by
  unfold keywordStatement
  split
  · exact leaves_some (ended_includeDirective _)
  · exact leaves_some (ended_declaration _ isParameter)
  · exact leaves_some (ended_allocation _)
  · exact leaves_some (ended_assignment _)
  · exact leaves_some (ended_movement _)
  · intro s read later hrun
    obtain ⟨value, middle, hvalue, hrun⟩ := exists_of_bind hrun
    cases hrun
    rintro _ ⟨⟩ -
    exact leaves_returnedValue _ hvalue
  · refine leaves_some (.skip fun _ => .skip fun first => .skip fun _ => ?_)
    refine .ite (fun _ => ?_) fun _ => ?_
    · exact .skip fun _ => .pure (ended_of_compound rfl)
    · exact .pure (ended_of_compound rfl)
  · exact leaves_some (.skip fun _ => .skip fun _ => .pure (ended_of_compound rfl))
  · refine leaves_some (.skip fun _ => .ite (fun _ => ?_) fun _ => ?_)
    · exact .skip fun _ => .skip fun _ => .pure (ended_of_compound rfl)
    · refine .skip fun typed => .skip fun _ => .ite (fun _ => ?_) fun _ => .reject_bind
      exact .skip fun _ => .skip fun _ => .skip fun _ => .pure (ended_of_compound rfl)
  · exact leaves_some (.skip fun _ => .skip fun _ => .pure (ended_of_compound rfl))
  · exact .pure endedIfRead_none
  · exact .reject

theorem ended_statementRule (isParameter : Bool) :
    Leaves EndedIfRead (statementRule parse isParameter) := by
  refine .skip fun token => ?_
  split
  · exact ended_keywordStatement isParameter token
  · exact .reject
  · refine .ite (fun _ => .skip fun _ => leaves_some (ended_callStatement _)) fun _ => ?_
    refine .ite (fun _ => .skip fun _ => .pure fun _ => ?_) fun _ => .reject
    rintro _ ⟨⟩
    exact ended_of_compound rfl _

/-! ## Nothing goes on in front of a comma -/

/-- No statement begins there. -/
theorem statementRule_stuck (isParameter : Bool) :
    Leads True Session.Stuck (fun _ _ => False) (statementRule parse isParameter) := by
  intro s hs hstuck
  have hkind := hstuck.kind_eq
  have htoken := hs.advance_previous (by simp [hkind])
  have hrejected : statementRule parse isParameter s =
      reject (.invalidStatementStart s.cursor.current.text) s.cursor.current.line
        (s.on .advance) := by
    simp [statementRule, htoken, hkind, hstuck.isOperator, hstuck.isPunctuation, Grouping.opening]
  rw [hrejected]
  exact .rejected (.advance .refl)

/-- No block ends there. -/
theorem statementsRule_stuck
    (h : Leads True Session.Stuck (fun _ _ => False) (parse (.statement false))) :
    Leads True Session.Stuck (fun _ _ => False) (statementsRule parse) := by
  intro s hs hstuck
  have hskip : skipSemicolons s = .ok () s := by
    simp [skipSemicolons, Session.on, Cursor.skipWhile, Cursor.ahead, hstuck.isPunctuation,
      Cursor.advanceBy]
  have hread : statementsRule parse s = (do
      let read ← parse (.statement false)
      return (read, s.cursor.current.line) :: (← parse .statements)) s := by
    simp [statementsRule, hskip, hstuck.atEnd, hstuck.isPunctuation, Grouping.closing]
  rw [hread]
  exact Leads.bind h (fun _ _ _ => False.elim) hs hstuck

/-- A branch that ends there has not read a semicolon. -/
theorem branchEnd_stuck (branch : Statement) :
    Leads True Session.Stuck (fun _ s => s.Stuck) (do
      unless ← takePunctuation ";" do
        let last ← previous
        unless last.isPunctuation Grouping.brace.closing || last.isPunctuation ";" do
          reject .missingSemicolon (← previousLine)
      return branch) := by
  have htake : Leads True Session.Stuck (fun _ s => s.Stuck) (takePunctuation ";") := by
    refine take_leads_of (fun s _ hstuck hmark => ?_) fun _ hstuck _ => hstuck
    exact absurd hmark (by simp [hstuck.isPunctuation])
  refine htake.bind fun _ => .ite (fun _ => .pure fun _ => id) fun _ => ?_
  refine looks_previous.leads.bind fun _ => .ite (fun _ => .pure fun _ => id) fun _ => ?_
  exact looks_previousLine.leads.bind fun _ => .reject_bind

/-! ## Descents side by side -/

/-- A statement ended in front of a comma or a closing parenthesis. In the place of a parameter it
    is no declaration. -/
def Late (isParameter : Bool) (read : Option Statement) (s : Session) : Prop :=
  s.Stuck ∧ (isParameter = true → ∀ statement, read = some statement →
    statement.isDeclaration = false)

/-- Readings, and strict ones beside them. They differ only in statements, and only where these end
    late. -/
structure StrictAll (parse parse' : Descent) : Prop extends LeadsAll True parse where
  typeName_eq : parse' .typeName = parse .typeName
  expression_eq : ∀ context, parse' (.expression context) = parse (.expression context)
  initializers_eq : parse' .initializers = parse .initializers
  stuck : ∀ isParameter,
    Leads True Session.Stuck (fun _ _ => False) (parse (.statement isParameter))
  strictStatement : ∀ isParameter,
    Tightens (Late isParameter) (parse (.statement isParameter)) (parse' (.statement isParameter))
  stuckStatements : Leads True Session.Stuck (fun _ _ => False) (parse .statements)
  strictStatements : Matches (parse .statements) (parse' .statements)
  strictParameters : Matches (parse .parameters) (parse' .parameters)

section

variable (h : StrictAll parse parse')

include h

/-! ## What asks for no statements -/

theorem typedName_eq (context : String) : typedName parse' context = typedName parse context := by
  simp only [typedName, h.typeName_eq]

theorem declaredValue_eq (isParameter : Bool) :
    declaredValue parse' isParameter = declaredValue parse isParameter := by
  simp only [declaredValue, h.expression_eq]

theorem allocation_eq (line : ℕ) : allocation parse' line = allocation parse line := by
  simp only [allocation, typedName_eq h, h.expression_eq]

theorem assignment_eq (line : ℕ) : assignment parse' line = assignment parse line := by
  simp only [assignment, h.expression_eq]

theorem movement_eq (line : ℕ) : movement parse' line = movement parse line := by
  simp only [movement, h.expression_eq]

theorem returnedValue_eq (line : ℕ) : returnedValue parse' line = returnedValue parse line := by
  simp only [returnedValue, h.expression_eq]

theorem callStatement_eq (line : ℕ) : callStatement parse' line = callStatement parse line := by
  simp only [callStatement, h.expression_eq]

theorem constructStatement_eq (line : ℕ) :
    constructStatement parse' line = constructStatement parse line := by
  simp only [constructStatement, construction, h.expression_eq, h.initializers_eq]

theorem condition_eq (line : ℕ) (missing : String) :
    condition parse' line missing = condition parse line missing := by
  simp only [condition, h.expression_eq]

/-! ## Blocks -/

theorem statementsRule_strict : Matches (statementsRule parse) (statementsRule parse') := by
  unfold statementsRule
  refine .bind (.same skipSemicolons_leads) fun _ => .bind (.same looks_atEnd.on) fun _ => ?_
  refine .bind (.same (looks_atPunctuation _).on) fun _ => ?_
  refine .ite (fun _ => .same (.pure _)) fun _ => ?_
  refine .bind (.same looks_currentLine.on) fun line => ?_
  refine (h.strictStatement false).bind_late (fun read => ?_) fun read => ?_
  · exact h.strictStatements.bind fun _ => .same (.pure _)
  · refine (h.stuckStatements.bind fun _ => ?_).mono (fun _ => And.left) fun _ _ => id
    exact fun _ _ => False.elim

theorem block_strict : Matches (block parse) (block parse') := by
  unfold block
  refine h.strictStatements.bind fun entries => .ite (fun _ => .same (.pure _)) fun _ => ?_
  exact .same (.bind (forM_leads (note_leads passNote) _) fun _ => .pure _)

theorem closedBlock_strict (context : String) :
    Matches (closedBlock parse context) (closedBlock parse' context) :=
  (block_strict h).bind fun _ => .same (.bind (expectPunctuation_leads _ _) fun _ => .pure _)

/-! ## Declarations and definitions -/

theorem parametersRule_strict : Matches (parametersRule parse) (parametersRule parse') := by
  unfold parametersRule
  refine .bind (.same (looks_atPunctuation _).on) fun _ => ?_
  refine .ite (fun _ => .same (.pure _)) fun _ => ?_
  refine .bind (.same looks_currentLine.on) fun line => ?_
  refine (h.strictStatement true).bind_late (fun read => ?_) fun read => ?_
  · cases read with
    | none => exact .reject
    | some parameter =>
      have hmore : Matches (do return parameter :: (← parse .parameters))
          (do return parameter :: (← parse' .parameters)) :=
        h.strictParameters.bind fun _ => .same (.pure _)
      refine .ite (fun _ => ?_) fun _ => .reject_bind
      refine .bind (.same (takePunctuation_leads ",")) fun _ => .ite (fun _ => hmore) fun _ => ?_
      refine .bind (.same (looks_atPunctuation _).on) fun _ => .ite (fun _ => hmore) fun _ => ?_
      exact .bind (.same looks_currentLine.on) fun _ => .reject_bind
  · cases read with
    | none => exact .reject
    | some parameter =>
      refine .ite (fun hdeclaration s _ hlate => ?_) fun _ => .reject_bind
      exact absurd hdeclaration (by simp [hlate.2 rfl parameter rfl])

theorem formalParameters_strict : Matches (formalParameters parse) (formalParameters parse') :=
  h.strictParameters.bind fun _ => .same (.bind move_leads fun _ => .pure _)

theorem definitionBody_strict (missing empty : String) :
    Matches (definitionBody parse missing empty) (definitionBody parse' missing empty) := by
  have hbody := closedBlock_strict h "to close definition body"
  unfold definitionBody
  refine .bind (.same (takePunctuation_leads _)) fun _ => .ite (fun _ => ?_) fun _ => ?_
  · refine .bind (.same (looks_atPunctuation _).on) fun _ => .ite (fun _ => ?_) fun _ => hbody
    refine .bind (.same looks_currentLine.on) fun _ => .bind (.same ?_) fun _ => hbody
    exact record_leads _ fun _ _ _ => id
  · exact .bind (.same looks_currentLine.on) fun _ => .reject_bind

theorem declaration_strict (line : ℕ) (isParameter : Bool) :
    Matches (declaration parse line isParameter) (declaration parse' line isParameter) := by
  have hend (statement : Statement) : LeadsOn True (do expectStatementEnd; return statement) :=
    .bind expectStatementEnd_leads fun _ => .pure _
  unfold declaration typedDeclaration
  rw [typedName_eq h, declaredValue_eq h]
  refine .bind (.same (takeKeyword_leads "struct")) fun _ => .ite (fun _ => ?_) fun _ => ?_
  · exact .same (structDeclaration_leads line)
  refine .bind (.same (expectTypeStart_leads line)) fun _ => ?_
  refine .bind (.same (typedName_leads h.toLeadsAll _)) fun typed => ?_
  refine .bind (.same (takePunctuation_leads "(")) fun _ => .ite (fun _ => ?_) fun _ => ?_
  · exact (formalParameters_strict h).bind fun _ => .same (hend _)
  · exact .bind (.same (declaredValue_leads h.toLeadsAll isParameter)) fun _ => .same (hend _)

theorem functionDefinition_strict (line : ℕ) :
    Matches (functionDefinition parse line) (functionDefinition parse' line) := by
  unfold functionDefinition
  rw [typedName_eq h]
  refine .bind (.same (typedName_leads h.toLeadsAll _)) fun typed => ?_
  refine .bind (.same (takePunctuation_leads "(")) fun _ => .ite (fun _ => ?_) fun _ => .reject_bind
  refine (formalParameters_strict h).bind fun params => ?_
  refine (definitionBody_strict h _ _).bind fun body => ?_
  exact .same (.bind (demandReturn_leads _ _ line) fun _ => .pure _)

theorem definition_strict (line : ℕ) :
    Matches (definition parse line) (definition parse' line) := by
  unfold definition structDefinition
  refine .bind (.same (takeKeyword_leads "struct")) fun _ => .ite (fun _ => ?_) fun _ => ?_
  · refine .bind (.same structName_leads) fun _ => ?_
    exact (definitionBody_strict h _ _).bind fun _ => .same (.pure _)
  · exact functionDefinition_strict h line

/-! ## Branches -/

theorem branch_strict : Tightens (fun _ s => s.Stuck) (branch parse) (branch parse') := by
  unfold branch
  refine .bind (.same looks_currentLine.on) fun line => ?_
  refine (h.strictStatement false).bind_late (fun read => .same ?_) fun read => ?_
  · refine .bind (takePunctuation_leads ";") fun _ => .ite (fun _ => .pure _) fun _ => ?_
    refine .bind looks_previous.on fun _ => .ite (fun _ => .pure _) fun _ => ?_
    exact .bind looks_previousLine.on fun _ => .reject
  · exact (branchEnd_stuck _).mono (fun _ => And.left) fun _ _ => id

/-- No `else` follows a branch that ends late. -/
theorem conditional_strict (line : ℕ) :
    Tightens (fun statement s => s.Stuck ∧ statement.isDeclaration = false)
      (conditional parse line) (conditional parse' line) := by
  unfold conditional
  rw [condition_eq h]
  refine .bind (.same (condition_leads h.toLeadsAll line _)) fun _ => ?_
  refine (branch_strict h).bind_late (fun first => ?_) fun first => ?_
  · refine .bind (.same (takeKeyword_leads "else")) fun _ => .ite (fun _ => ?_) fun _ => ?_
    · exact (branch_strict h).bind_late (fun _ => .same (.pure _)) fun _ =>
        .pure fun _ hs => ⟨hs, rfl⟩
    · exact .same (.pure _)
  · have htake : Leads True Session.Stuck (fun taken s => taken = false ∧ s.Stuck)
        (takeKeyword "else") :=
      take_leads_of (fun s _ hs helse => absurd helse (by simp [hs.isKeyword]))
        fun _ hs _ => ⟨rfl, hs⟩
    refine htake.bind fun taken => .ite (fun htaken s _ hs => ?_) fun _ => ?_
    · exact absurd htaken (by simp [hs.1])
    · exact .pure fun _ hs => ⟨hs.2, rfl⟩

theorem loop_strict (line : ℕ) :
    Tightens (fun statement s => s.Stuck ∧ statement.isDeclaration = false)
      (loop parse line) (loop parse' line) := by
  unfold loop
  rw [condition_eq h]
  refine .bind (.same (condition_leads h.toLeadsAll line _)) fun _ => ?_
  exact (branch_strict h).bind_late (fun _ => .same (.pure _)) fun _ => .pure fun _ hs => ⟨hs, rfl⟩

/-! ## Statements -/

theorem keywordStatement_strict (isParameter : Bool) (token : Token) :
    Tightens (Late true) (keywordStatement parse isParameter token)
      (keywordStatement parse' isParameter token) := by
  have hequal {p q : Parser Statement} (hpq : Matches p q) :
      Tightens (Late true) (some <$> p) (some <$> q) := by
    rw [map_eq_pure_bind, map_eq_pure_bind]
    exact hpq.bind fun _ => .same (.pure _)
  have hsame {p q : Parser Statement} (heq : q = p) (hp : LeadsOn True p) :
      Tightens (Late true) (some <$> p) (some <$> q) := by
    rw [heq]
    exact hequal (.same hp)
  have hlate {p q : Parser Statement}
      (hpq : Tightens (fun statement s => s.Stuck ∧ statement.isDeclaration = false) p q) :
      Tightens (Late true) (some <$> p) (some <$> q) := by
    rw [map_eq_pure_bind, map_eq_pure_bind]
    refine hpq.bind_late (fun _ => .same (.pure _)) fun statement => .pure fun s hs => ⟨hs.1, ?_⟩
    rintro - _ ⟨⟩
    exact hs.2
  unfold keywordStatement
  split
  · exact hsame rfl (includeDirective_leads _)
  · exact hequal (declaration_strict h _ isParameter)
  · exact hsame (allocation_eq h _) (allocation_leads h.toLeadsAll _)
  · exact hsame (assignment_eq h _) (assignment_leads h.toLeadsAll _)
  · exact hsame (movement_eq h _) (movement_leads h.toLeadsAll _)
  · simp only [returnedValue_eq h]
    exact .same (.bind (returnedValue_leads h.toLeadsAll _) fun _ => .pure _)
  · exact hlate (conditional_strict h _)
  · exact hlate (loop_strict h _)
  · exact hequal (definition_strict h _)
  · exact hsame (constructStatement_eq h _) (constructStatement_leads h.toLeadsAll _)
  · exact .same (.pure _)
  · exact .reject

/-- Before the semicolon is demanded, only conditions and loops end late. -/
theorem statementRule_strict (isParameter : Bool) :
    Tightens (Late true) (statementRule parse isParameter) (statementRule parse' isParameter) := by
  unfold statementRule
  refine .bind (.same advance_leads) fun token => ?_
  split
  · exact keywordStatement_strict h isParameter token
  · exact .reject
  · refine .ite (fun _ => ?_) fun _ => .ite (fun _ => ?_) fun _ => .reject
    · rw [callStatement_eq h]
      exact .same (retreat_leadsOn ((callStatement_leadsFirst h.toLeadsAll _).map some))
    · exact (closedBlock_strict h _).bind fun _ => .same (.pure _)

/-- A simple statement that does not end in front of its semicolon ends late. -/
theorem demandSemicolon_strict (isParameter : Bool) :
    Tightens (Late isParameter) (statementRule parse isParameter)
      (strictRule parse parse' (.statement isParameter)) := by
  intro s hs
  have hread := statementRule_strict h isParameter hs
  have hends : Leaves EndedIfRead (statementRule parse isParameter) :=
    ended_statementRule isParameter
  have hended := @hends s
  simp only [strictRule, bind_run]
  generalize statementRule parse isParameter s = result,
    statementRule parse' isParameter s = result' at hread hended ⊢
  cases hread with
  | error => exact .error
  | late onward hlate => exact .late onward ⟨hlate.1, fun _ => hlate.2 rfl⟩
  | @ok read later onward =>
    cases isParameter with
    | true => exact .ok onward
    | false =>
      simp only [Bool.false_eq_true, if_false, bind_run, demandSemicolon_run]
      by_cases hdemanded : (!read.any Statement.isSimple ||
          later.cursor.current.isPunctuation ";") = true
      · rw [if_pos hdemanded]
        exact .ok onward
      · rw [if_neg hdemanded]
        simp only [Bool.or_eq_true, Bool.not_eq_true', not_or, Bool.not_eq_false] at hdemanded
        obtain ⟨statement, rfl, hsimple⟩ := (Option.any_eq_true _ _).mp hdemanded.1
        exact .late onward
          ⟨(hended rfl statement rfl hsimple).resolve_left hdemanded.2, nofun⟩

/-- The strict rules of readings and strict readings, and the rules themselves. -/
theorem rule_strictAll : StrictAll (rule parse) (strictRule parse parse') where
  toLeadsAll := rule_leadsAll h.toLeadsAll
  typeName_eq := rfl
  expression_eq _ := rfl
  initializers_eq := rfl
  stuck := statementRule_stuck
  strictStatement := demandSemicolon_strict h
  stuckStatements := statementsRule_stuck (h.stuck false)
  strictStatements := statementsRule_strict h
  strictParameters := parametersRule_strict h

end

/-! ## The descent -/

theorem strictly_strictAll (steps : ℕ) : StrictAll (descend steps) (strictly steps) := by
  induction steps with
  | zero =>
    exact
      { toLeadsAll := descend_leadsAll 0
        typeName_eq := rfl
        expression_eq := fun _ => rfl
        initializers_eq := rfl
        stuck := fun _ _ _ _ => .unfinished trivial
        strictStatement := fun _ _ _ => .error
        stuckStatements := fun _ _ _ => .unfinished trivial
        strictStatements := fun _ _ => .error
        strictParameters := fun _ _ => .error }
  | succ steps ih => exact rule_strictAll ih

theorem fullStrictly_strictAll : StrictAll full fullStrictly where
  toLeadsAll := full_leadsAll
  typeName_eq := funext fun s => congrFun (strictly_strictAll (stepsFor s.cursor)).typeName_eq s
  expression_eq context :=
    funext fun s => congrFun ((strictly_strictAll (stepsFor s.cursor)).expression_eq context) s
  initializers_eq :=
    funext fun s => congrFun (strictly_strictAll (stepsFor s.cursor)).initializers_eq s
  stuck isParameter := .full fun steps => (strictly_strictAll steps).stuck isParameter
  strictStatement isParameter s hs :=
    (strictly_strictAll (stepsFor s.cursor)).strictStatement isParameter hs
  stuckStatements := .full fun steps => (strictly_strictAll steps).stuckStatements
  strictStatements s hs := (strictly_strictAll (stepsFor s.cursor)).strictStatements hs
  strictParameters s hs := (strictly_strictAll (stepsFor s.cursor)).strictParameters hs

theorem program_strict : Matches program strictProgram := by
  refine (block_strict fullStrictly_strictAll).bind fun program => .same ?_
  refine .bind looks_atEnd.on fun _ => .ite (fun _ => .pure _) fun _ => ?_
  exact .bind looks_peek.on fun _ => .reject_bind

/-- A simple statement that is read strictly ends in front of its semicolon. -/
theorem isPunctuation_of_strictly {steps : ℕ} {s later : Session} {statement : Statement}
    (hrun : strictly steps (.statement false) s = .ok (some statement) later)
    (hsimple : statement.isSimple = true) :
    later.cursor.current.isPunctuation ";" = true := by
  cases steps with
  | zero => cases hrun
  | succ steps =>
    obtain ⟨read, middle, -, hrun⟩ := exists_of_bind hrun
    obtain ⟨_, _, hdemand, hrun⟩ := exists_of_bind hrun
    cases hrun
    have hany : (some statement).any Statement.isSimple = true := hsimple
    rw [demandSemicolon_run, hany, Bool.not_true, Bool.false_or] at hdemand
    split at hdemand
    next hmark =>
      cases hdemand
      exact hmark
    next => cases hdemand

end Parser

/-! ## Programs -/

/-- It makes no difference whether a semicolon is demanded directly behind every simple statement
    that is no parameter: the same token lists are accepted, and they are read as the same program.
    Where it is demanded, a simple statement that is read ends directly in front of one. -/
theorem program_iff_strictProgram :
    (∀ {tokens : List Token} {program : Block} {later : Session},
      Parser.program (Session.ofTokens tokens) = .ok program later ↔
        Parser.strictProgram (Session.ofTokens tokens) = .ok program later) ∧
    ∀ {steps : ℕ} {s later : Session} {statement : Statement},
      Parser.strictly steps (.statement false) s = .ok (some statement) later →
        statement.isSimple = true → later.cursor.current.isPunctuation ";" = true :=
  ⟨(Parser.program_strict (Session.tidy_ofTokens _)).ok_iff, Parser.isPunctuation_of_strictly⟩

/-- A call with several arguments ends behind all of them. -/
theorem program_iff_strictProgram_let :
    ∃ tokens program later statement ended,
      Token.ofText "let x = f(1, 2);" = .ok tokens ∧
      Parser.program (.ofTokens tokens) = .ok program later ∧
      Parser.strictProgram (.ofTokens tokens) = .ok program later ∧
      Parser.strictly 40 (.statement false) (.ofTokens tokens) = .ok (some statement) ended ∧
      statement.isSimple = true ∧ ended.cursor.current.isPunctuation ";" = true := by
  have hreads : Parser.readsAs Parser.program (fun tokens _ =>
      match Parser.strictly 40 (.statement false) (.ofTokens tokens) with
      | .ok read _ => read.any Statement.isSimple
      | .error _ _ => false) "let x = f(1, 2);" = true := by
    decide +kernel
  obtain ⟨tokens, program, later, htokens, hrun, hstrict⟩ := Parser.exists_of_readsAs hreads
  split at hstrict
  next read ended hread =>
    obtain ⟨statement, rfl, hsimple⟩ := (Option.any_eq_true _ _).mp hstrict
    exact ⟨tokens, program, later, statement, ended, htokens, hrun,
      program_iff_strictProgram.1.mp hrun, hread, hsimple,
      program_iff_strictProgram.2 hread hsimple⟩
  next => cases hstrict

/-- On its own, a statement is read also in front of a comma. -/
example : Parser.readsAs Parser.topLevelStatement (fun _ read => read.any Statement.isSimple)
    "let a = 1, b;" = true := by
  decide +kernel

end SinFrontend
