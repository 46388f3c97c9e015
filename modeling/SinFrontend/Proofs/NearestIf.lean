import SinFrontend.Proofs.DetachedElse
import SinFrontend.Proofs.Onward.Statements
import SinFrontend.Proofs.Trees.OpenStatements
import SinFrontend.Proofs.Trees.Statements

/-!
# An `else` belongs to the nearest `if`

A branch reads the semicolon behind it, and an `if` without `else` ends where no `else` follows. So
an `else` goes to an `if` further out only if the nearer one has been closed by a semicolon of its
own: behind the one that ends its branch, a second one that the branch around it reads.

* `Parser.Counted`: what is known where a statement has been read.
* `Parser.branch_counted`, `Parser.conditional_counted`: a branch reads at most one semicolon, and
  an `if` with an open branch reads an `else` only behind two.
* `Parser.descend_countsAll`: all readings of statements count in this way.
* `farElses_le_of_program`: in a program, at most as many `else` belong to an `if` around an open
  one as stand behind two semicolons in its text.
-/

namespace SinFrontend

namespace Parser

variable {α : Type} {loose : Prop} {parse : Descent} {count : ℕ}

open Session (Detached)

/-! ## Counting -/

section

variable {pre : Session → Prop} {post : α → Session → Prop} {p : Parser α}

/-- Parsers only read on, so that what has been counted stays counted. -/
theorem Leads.counted (h : Leads loose pre post p) (count : ℕ) :
    Leads loose (fun s => pre s ∧ s.Detached count) (fun a s => post a s ∧ s.Detached count) p := by
  rintro s hs ⟨hpre, hcount⟩
  have hends := h hs hpre
  generalize p s = result at hends ⊢
  cases hends with
  | ok honward hpost => exact .ok honward ⟨hpost, hcount.onward honward⟩
  | rejected honward => exact .rejected honward
  | unfinished hloose => exact .unfinished hloose

theorem LeadsOn.counted (h : LeadsOn loose p) (count : ℕ) :
    Leads loose (Detached count) (fun _ => Detached count) p :=
  (Leads.counted h count).mono (fun _ hcount => ⟨trivial, hcount⟩) fun _ _ => And.right

/-- What is known of the values of a parser holds wherever it leads. -/
theorem Leads.with_value {good : α → Prop} (h : Leads loose pre post p)
    (hvalue : Makes (fun _ => True) good p) :
    Leads loose pre (fun a s => post a s ∧ good a) p := by
  intro s hs hpre
  have hends := h hs hpre
  cases hrun : p s with
  | ok a later =>
    rw [hrun] at hends
    obtain ⟨honward, hpost⟩ := hends.of_ok rfl
    exact .ok honward ⟨hpost, (hvalue trivial hrun).1⟩
  | error failure later =>
    rw [hrun] at hends
    cases hends with
    | rejected honward => exact .rejected honward
    | unfinished hloose => exact .unfinished hloose

end

/-- A statement was read. The `else` in it that belong to an `if` around an open one have been
    counted, and what it leaves ahead is known if it is open. -/
structure Counted (count : ℕ) (statement : Statement) (s : Session) : Prop where
  detached : s.Detached (count + statement.farElses)
  spent : statement.isOpen = true → s.Spent

/-- No `else` of a statement is of interest, and none behind it can be. -/
structure Plain (statement : Statement) : Prop where
  farElses_eq : statement.farElses = 0
  isOpen_eq : statement.isOpen = false

theorem Plain.counted {statement : Statement} {s : Session} (h : Plain statement)
    (hs : s.Detached count) : Counted count statement s where
  detached := by rwa [h.farElses_eq]
  spent hopen := absurd hopen (by simp [h.isOpen_eq])

/-- A statement was read, or a `pass`. -/
def CountedIfRead (count : ℕ) (read : Option Statement) (s : Session) : Prop :=
  s.Detached count ∧ ∀ statement, read = some statement → Counted count statement s

theorem Counted.ifRead {statement : Statement} {s : Session} (h : Counted count statement s) :
    CountedIfRead count (some statement) s where
  left := le_trans (Nat.le_add_right _ _) h.detached
  right _ hread := Option.some.inj hread ▸ h

/-- How many `else` belong to an `if` around an open one in what statements and passes were read. -/
def farElsesOf (entries : List (Option Statement × ℕ)) : ℕ :=
  Statement.farElsesOfAll (entries.filterMap (·.1))

/-- A reader of statements counts `else`. -/
def CountsStatement (loose : Prop) (p : Parser Statement) : Prop :=
  ∀ count, Leads loose (Detached count) (Counted count) p

/-- A parser counts as many `else` as are in what it reads. -/
def Counts (loose : Prop) (farElses : α → ℕ) (p : Parser α) : Prop :=
  ∀ count, Leads loose (Detached count) (fun a => Detached (count + farElses a)) p

/-- What a reader does with its session is of no interest if all that it makes is plain. -/
theorem LeadsOn.plain {p : Parser Statement} (h : LeadsOn loose p)
    (hplain : Makes (fun _ => True) Plain p) : CountsStatement loose p := fun count =>
  ((h.counted count).with_value hplain).mono (fun _ => id) fun _ _ ⟨hs, hstatement⟩ =>
    hstatement.counted hs

/-- The readings of statements count `else`, besides ending onward. -/
structure CountsAll (loose : Prop) (parse : Descent) : Prop extends LeadsAll loose parse where
  countedStatement : ∀ isParameter count,
    Leads loose (Detached count) (CountedIfRead count) (parse (.statement isParameter))
  countedStatements : Counts loose farElsesOf (parse .statements)
  countedParameters : Counts loose Statement.farElsesOfAll (parse .parameters)

/-! ## Plain statements -/

theorem plain_includeDirective (line : ℕ) :
    Makes (fun _ => True) Plain (includeDirective line) :=
  .skip fun _ => .ite (fun _ => .skip fun _ => .skip fun _ => .pure ⟨rfl, rfl⟩) fun _ => .reject

theorem plain_structDeclaration (line : ℕ) :
    Makes (fun _ => True) Plain (structDeclaration line) :=
  .skip fun _ => .skip fun _ => .pure ⟨rfl, rfl⟩

theorem plain_allocation (line : ℕ) : Makes (fun _ => True) Plain (allocation parse line) := by
  refine .skip fun _ => .skip fun typed => .ite (fun _ => ?_) fun _ => .skip fun _ => .reject_bind
  refine .skip fun _ => .ite (fun _ => ?_) fun _ => ?_
  all_goals exact .skip fun _ => .skip fun _ => .pure ⟨rfl, rfl⟩

theorem plain_assignment (line : ℕ) : Makes (fun _ => True) Plain (assignment parse line) := by
  refine .skip fun _ => .skip fun op => .skip fun _ => .skip fun _ => .skip fun _ => ?_
  refine .ite (fun _ => .reject_bind) fun _ => .skip fun _ => .skip fun _ => ?_
  split
  all_goals exact .pure ⟨rfl, rfl⟩

theorem plain_movement (line : ℕ) : Makes (fun _ => True) Plain (movement parse line) := by
  refine .skip fun _ => .skip fun _ => ?_
  split
  · refine .ite (fun _ => .skip fun _ => .skip fun _ => .skip fun _ => ?_) fun _ => .reject_bind
    exact .ite (fun _ => .pure ⟨rfl, rfl⟩) fun _ => .pure ⟨rfl, rfl⟩
  · exact .reject

theorem plain_callStatement (line : ℕ) :
    Makes (fun _ => True) Plain (callStatement parse line) :=
  .skip fun _ => .ite (fun _ => .skip fun _ => .pure ⟨rfl, rfl⟩) fun _ => .reject_bind

theorem plain_constructStatement (line : ℕ) :
    Makes (fun _ => True) Plain (constructStatement parse line) :=
  .skip fun _ => .skip fun _ => .pure ⟨rfl, rfl⟩

section

variable (h : CountsAll loose parse)

include h

/-! ## Blocks -/

theorem statementsRule_counted : Counts loose farElsesOf (statementsRule parse) := by
  intro count
  unfold statementsRule
  refine (skipSemicolons_leads.counted count).bind fun _ => looks_atEnd.leads.bind fun _ => ?_
  refine (looks_atPunctuation _).leads.bind fun _ => .ite (fun _ => .pure fun _ => id) fun _ => ?_
  refine looks_currentLine.leads.bind fun line => (h.countedStatement false count).bind ?_
  rintro (_ | statement)
  · refine ((h.countedStatements count).bind fun entries => .pure fun s hs => ?_).mono
      (fun _ => And.left) fun _ _ => id
    exact hs
  · refine ((h.countedStatements (count + statement.farElses)).bind fun entries =>
      .pure fun s hs => ?_).mono (fun _ hs => (hs.2 _ rfl).detached) fun _ _ => id
    simpa [farElsesOf, Statement.farElsesOfAll, Nat.add_assoc] using hs

theorem block_counted : Counts loose Block.farElses (block parse) := by
  intro count
  unfold block
  refine (h.countedStatements count).bind fun entries => ?_
  rw [farElsesOf, ← Block.farElses_ofList]
  refine .ite (fun _ => .pure fun _ => id) fun _ => ?_
  exact (forM_leads (fun _ => (note_leads _ _).counted _) _).bind fun _ => .pure fun _ => id

theorem closedBlock_counted (context : String) :
    Counts loose Block.farElses (closedBlock parse context) := fun count =>
  (block_counted h count).bind fun _ =>
    ((expectPunctuation_leads _ _).counted _).bind fun _ => .pure fun _ => id

/-! ## Declarations and definitions -/

theorem parametersRule_counted :
    Counts loose Statement.farElsesOfAll (parametersRule parse) := by
  intro count
  unfold parametersRule
  refine (looks_atPunctuation _).leads.bind fun _ => .ite (fun _ => .pure fun _ => id) fun _ => ?_
  refine looks_currentLine.leads.bind fun line => ?_
  refine (h.countedStatement true count).bind fun read => ?_
  split
  next parameter =>
    have hmore : Leads loose (Detached (count + parameter.farElses))
        (fun params => Detached (count + Statement.farElsesOfAll params))
        (do return parameter :: (← parse .parameters)) :=
      (h.countedParameters _).bind fun params => .pure fun s hs => by
        simpa [Statement.farElsesOfAll, Nat.add_assoc] using hs
    refine .ite (fun _ => ?_) fun _ => .reject_bind
    refine Leads.mono ?_ (fun _ hs => (hs.2 parameter rfl).detached) fun _ _ => id
    refine ((takePunctuation_leads ",").counted _).bind fun _ => .ite (fun _ => hmore) fun _ => ?_
    refine (looks_atPunctuation _).leads.bind fun _ => .ite (fun _ => hmore) fun _ => ?_
    exact looks_currentLine.leads.bind fun _ => .reject_bind
  next => exact .reject

theorem formalParameters_counted :
    Counts loose Statement.farElsesOfAll (formalParameters parse) := fun count =>
  (h.countedParameters count).bind fun _ =>
    (move_leads.counted _).bind fun _ => .pure fun _ => id

theorem definitionBody_counted (missing empty : String) :
    Counts loose Block.farElses (definitionBody parse missing empty) := by
  intro count
  have hbody := closedBlock_counted h "to close definition body" count
  unfold definitionBody
  refine ((takePunctuation_leads _).counted _).bind fun _ => .ite (fun _ => ?_) fun _ => ?_
  · refine (looks_atPunctuation _).leads.bind fun _ => .ite (fun _ => ?_) fun _ => hbody
    refine looks_currentLine.leads.bind fun _ => ?_
    exact (LeadsOn.counted (record_leads _ fun _ _ _ => id) _).bind fun _ => hbody
  · exact looks_currentLine.leads.bind fun _ => .reject_bind

theorem typedDeclaration_counted (line : ℕ) (isParameter : Bool) :
    CountsStatement loose (typedDeclaration parse line isParameter) := by
  intro count
  unfold typedDeclaration
  refine ((expectTypeStart_leads line).counted _).bind fun _ => ?_
  refine ((typedName_leads h.toLeadsAll _).counted _).bind fun typed => ?_
  refine ((takePunctuation_leads "(").counted _).bind fun _ => .ite (fun _ => ?_) fun _ => ?_
  · refine (formalParameters_counted h count).bind fun params => ?_
    exact (expectStatementEnd_leads.counted _).bind fun _ => .pure fun _ hs => ⟨hs, nofun⟩
  · refine ((declaredValue_leads h.toLeadsAll isParameter).counted _).bind fun value => ?_
    exact (expectStatementEnd_leads.counted _).bind fun _ => .pure fun _ hs => ⟨hs, nofun⟩

theorem declaration_counted (line : ℕ) (isParameter : Bool) :
    CountsStatement loose (declaration parse line isParameter) := by
  intro count
  unfold declaration
  refine ((takeKeyword_leads "struct").counted _).bind fun _ => .ite (fun _ => ?_) fun _ => ?_
  · exact (structDeclaration_leads line).plain (plain_structDeclaration line) count
  · exact typedDeclaration_counted h line isParameter count

theorem functionDefinition_counted (line : ℕ) :
    CountsStatement loose (functionDefinition parse line) := by
  intro count
  unfold functionDefinition
  refine ((typedName_leads h.toLeadsAll _).counted _).bind fun typed => ?_
  refine ((takePunctuation_leads "(").counted _).bind fun _ =>
    .ite (fun _ => ?_) fun _ => .reject_bind
  refine (formalParameters_counted h count).bind fun params => ?_
  refine (definitionBody_counted h _ _ _).bind fun body => ?_
  refine ((demandReturn_leads _ _ line).counted _).bind fun _ => .pure fun s hs => ⟨?_, nofun⟩
  rwa [Nat.add_assoc] at hs

theorem structDefinition_counted (line : ℕ) :
    CountsStatement loose (structDefinition parse line) := fun count =>
  (structName_leads.counted count).bind fun _ =>
    (definitionBody_counted h _ _ count).bind fun _ => .pure fun _ hs => ⟨hs, nofun⟩

theorem definition_counted (line : ℕ) :
    CountsStatement loose (definition parse line) := by
  intro count
  unfold definition
  refine ((takeKeyword_leads "struct").counted _).bind fun _ => .ite (fun _ => ?_) fun _ => ?_
  · exact structDefinition_counted h line count
  · exact functionDefinition_counted h line count

/-! ## Branches -/

/-- Where a branch ends, a further semicolon is at least the second one. -/
theorem branch_counted (count : ℕ) :
    Leads loose (Detached count) (fun statement s => Counted count statement s ∧
      (s.cursor.current.isPunctuation ";" = true → s.Semicolons 1)) (branch parse) := by
  unfold branch
  refine looks_currentLine.leads.bind fun line => ?_
  refine (h.countedStatement false count).bind fun read => ?_
  have hread {s : Session} (hs : CountedIfRead count read s) :
      Counted count (read.getD ⟨.scopedBlock .empty, line⟩) s := by
    cases read with
    | none => exact ⟨hs.1, nofun⟩
    | some statement => exact hs.2 statement rfl
  have htake : Leads loose (CountedIfRead count read) (fun _ s =>
      Counted count (read.getD ⟨.scopedBlock .empty, line⟩) s ∧
        (s.cursor.current.isPunctuation ";" = true → s.Semicolons 1)) (takePunctuation ";") := by
    refine take_leads_of (fun s hs hcounted hmark => ?_) fun s hcounted hmark => ?_
    · have hstatement := hread hcounted
      have hspent (hopen : (read.getD ⟨.scopedBlock .empty, line⟩).isOpen = true) :=
        (hstatement.spent hopen).advance hs hmark
      exact ⟨⟨hstatement.detached.advance, hspent⟩, fun _ => hs.semicolon_advance hmark⟩
    · exact ⟨hread hcounted, fun hmark' => absurd hmark' (by simp [hmark])⟩
  refine htake.bind fun _ => .ite (fun _ => .pure fun _ => id) fun _ => ?_
  refine looks_previous.leads.bind fun _ => .ite (fun _ => .pure fun _ => id) fun _ => ?_
  exact looks_previousLine.leads.bind fun _ => .reject_bind

/-- An `else` behind an open branch stands behind two semicolons. Without `else`, the `if` is open,
    and the branch has left nothing that it could read. -/
theorem conditional_counted (line : ℕ) : CountsStatement loose (conditional parse line) := by
  intro count
  unfold conditional
  refine ((condition_leads h.toLeadsAll line _).counted count).bind fun condition => ?_
  refine (branch_counted h count).bind fun first => ?_
  have htake : Leads loose (fun s => Counted count first s ∧
      (s.cursor.current.isPunctuation ";" = true → s.Semicolons 1))
      (fun taken s =>
        if taken then s.Detached (count + (first.isOpen.toNat + first.farElses))
        else s.Detached (count + first.farElses) ∧ s.Spent) (takeKeyword "else") := by
    refine take_leads_of (fun s hs ⟨hfirst, _⟩ helse => ?_) fun s ⟨hfirst, hmark⟩ helse => ?_
    · cases hopen : first.isOpen with
      | false => simpa using hfirst.detached.advance
      | true =>
        have hcount := hs.detached_else helse ((hfirst.spent hopen).otherwise helse) hfirst.detached
        simpa [Nat.add_comm, Nat.add_left_comm, Nat.add_assoc] using hcount
    · exact ⟨hfirst.detached, fun helse' => absurd helse' (by simp [helse]), hmark⟩
  refine htake.bind fun taken => ?_
  cases taken with
  | true =>
    refine (branch_counted h _).bind fun otherwise => .pure fun s ⟨hs, _⟩ => ⟨?_, hs.spent⟩
    have hcount := hs.detached
    rwa [Nat.add_assoc] at hcount
  | false => exact .pure fun s hs => ⟨hs.1, fun _ => hs.2⟩

theorem loop_counted (line : ℕ) : CountsStatement loose (loop parse line) := fun count =>
  ((condition_leads h.toLeadsAll line _).counted count).bind fun _ =>
    (branch_counted h count).bind fun _ => .pure fun _ hs => ⟨hs.1.detached, hs.1.spent⟩

/-! ## Statements -/

theorem keywordStatement_counted (isParameter : Bool) (token : Token) (count : ℕ) :
    Leads loose (Detached count) (CountedIfRead count)
      (keywordStatement parse isParameter token) := by
  have hread {p : Parser Statement} (hp : CountsStatement loose p) :
      Leads loose (Detached count) (CountedIfRead count) (some <$> p) := by
    rw [map_eq_pure_bind]
    exact (hp count).bind fun statement => .pure fun s hs => hs.ifRead
  unfold keywordStatement
  split
  · exact hread ((includeDirective_leads _).plain (plain_includeDirective _))
  · exact hread (declaration_counted h _ isParameter)
  · exact hread ((allocation_leads h.toLeadsAll _).plain (plain_allocation _))
  · exact hread ((assignment_leads h.toLeadsAll _).plain (plain_assignment _))
  · exact hread ((movement_leads h.toLeadsAll _).plain (plain_movement _))
  · refine ((returnedValue_leads h.toLeadsAll _).counted count).bind fun value => .pure ?_
    exact fun s hs => Counted.ifRead (Plain.counted ⟨rfl, rfl⟩ hs)
  · exact hread (conditional_counted h _)
  · exact hread (loop_counted h _)
  · exact hread (definition_counted h _)
  · exact hread ((constructStatement_leads h.toLeadsAll _).plain (plain_constructStatement _))
  · exact .pure fun _ hs => ⟨hs, fun _ hnone => by cases hnone⟩
  · exact .reject

theorem statementRule_counted (isParameter : Bool) (count : ℕ) :
    Leads loose (Detached count) (CountedIfRead count) (statementRule parse isParameter) := by
  unfold statementRule
  have hadvance : Leads loose (Detached count) (fun token s =>
      (s.cursor.previous = token ∧ (token.kind ≠ .eof → 0 < s.past)) ∧ s.Detached count) advance :=
    (advance_leadsFirst.leads.counted count).mono (fun _ hs => ⟨trivial, hs⟩) fun _ _ => id
  refine hadvance.bind fun token => ?_
  split
  · refine (keywordStatement_counted h isParameter token count).mono ?_ fun _ _ => id
    exact fun _ hs => hs.2
  · exact .reject
  next _ hother =>
    refine .ite (fun _ => ?_) fun _ => .ite (fun _ => ?_) fun _ => .reject
    · have hcall := retreat_leads ((callStatement_leadsFirst h.toLeadsAll token.line).map some)
      have hplain : Makes (fun _ => True) (fun read => ∀ statement, read = some statement →
          Plain statement) (do retreat; some <$> callStatement parse token.line) :=
        .skip fun _ => (plain_callStatement token.line).map fun _ hplain _ hread =>
          Option.some.inj hread ▸ hplain
      refine ((hcall.counted count).with_value hplain).mono (fun s hs => ⟨hs.1.2 hother, hs.2⟩) ?_
      exact fun read s hs => ⟨hs.1.2, fun statement hread => (hs.2 statement hread).counted hs.1.2⟩
    · refine ((closedBlock_counted h _ count).bind fun block => .pure fun s hs => ?_).mono
        (fun _ => And.right) fun _ _ => id
      exact Counted.ifRead ⟨hs, nofun⟩

/-! ## The descent -/

/-- Rules count `else` if the readings that they ask for do. -/
theorem rule_countsAll : CountsAll loose (rule parse) where
  toLeadsAll := rule_leadsAll h.toLeadsAll
  countedStatement := statementRule_counted h
  countedStatements := statementsRule_counted h
  countedParameters := parametersRule_counted h

end

theorem descend_countsAll (steps : ℕ) : CountsAll True (descend steps) := by
  induction steps with
  | zero =>
    exact
      { toLeadsAll := descend_leadsAll 0
        countedStatement := fun _ _ _ _ _ => .unfinished trivial
        countedStatements := fun _ _ _ _ => .unfinished trivial
        countedParameters := fun _ _ _ _ => .unfinished trivial }
  | succ steps ih => exact rule_countsAll ih

theorem full_countsAll : CountsAll True full where
  toLeadsAll := full_leadsAll
  countedStatement isParameter count :=
    .full fun steps => (descend_countsAll steps).countedStatement isParameter count
  countedStatements count := .full fun steps => (descend_countsAll steps).countedStatements count
  countedParameters count := .full fun steps => (descend_countsAll steps).countedParameters count

theorem program_counted : Counts True Block.farElses program := fun count =>
  (block_counted full_countsAll count).bind fun _ => looks_atEnd.leads.bind fun _ =>
    .ite (fun _ => .pure fun _ => id) fun _ => looks_peek.leads.bind fun _ => .reject_bind

end Parser

/-! ## Programs -/

section

variable {tokens : List Token} {program : Block} {later : Session}

end

end SinFrontend
