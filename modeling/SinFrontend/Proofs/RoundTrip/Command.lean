import SinFrontend.Proofs.RoundTrip.Declaration

/-!
# Printed simple statements are read back

Includes, allocations, assignments, moves, returns, calls and constructions hold no other
statements. Each rule is entered behind the first word and reads up to the semicolon, which it
leaves; only a construction ends in a brace of its own.

* `takes_assignment`: the value of an assignment begins on the line of the assignment.
* `takes_constructStatement`: initializers are read up to the word `default` or the closing brace.
-/

namespace SinFrontend.Parser

variable {tokens rest : List Token} {next : Token} {line : ℕ}

/-! ## Includes and allocations -/

theorem takes_includeDirective (line : ℕ) {filename : String}
    (hspells : Spells [{ kind := .str, text := filename }] tokens) (hnext : EndsStatement next)
    (rest : List Token) :
    Takes (fun _ => includeDirective line) tokens (next :: rest)
      ⟨.includeFile filename, line⟩ := by
  obtain ⟨line', more, -, hmore, rfl⟩ := spells_cons_iff.mp hspells
  rw [spells_nil_iff.mp hmore]
  intro base passed
  refine ⟨base, .of_forall fun steps => ?_⟩
  simp [includeDirective, expectStatementEnd_run hnext]

theorem takes_allocation (line : ℕ) {typed : TypedName} {value : Option Term}
    (hwf : typed.WellFormed) (hvalid : typed.tree.isValid = true)
    (hspells : Spells (typed.print ++ printValue value) tokens) (hnext : EndsStatement next)
    (rest : List Token) :
    Takes (fun parse => allocation parse line) tokens (next :: rest)
      ⟨.allocation typed.tree typed.name (value.map Term.tree), line⟩ := by
  have hbegins := expectTypeStart_run ((beginsWithWord_typedName typed).append _) hspells line
  obtain ⟨front, back, hfront, hback, rfl⟩ := spells_append_iff.mp hspells
  obtain ⟨second, more, hahead, hsecond, -⟩ := spells_printValue hback hnext rest
  intro base passed
  have hstart := hbegins base passed (next :: rest)
  obtain ⟨base', htyped⟩ := takes_typedName hwf hfront hsecond "after type in allocation" more
    base passed
  rw [← hahead] at htyped
  refine ⟨base', ?_⟩
  cases value with
  | none =>
    rw [spells_nil_iff.mp hback] at htyped hstart ⊢
    filter_upwards [htyped] with steps h₁
    simp only [List.append_nil, List.nil_append] at hstart h₁ ⊢
    simp [allocation, hstart, h₁, hvalid, hnext.isOperator, expectStatementEnd_run hnext]
  | some value =>
    obtain ⟨line', more', hvalue, rfl⟩ := spells_operator_iff.mp hback
    have hcolon : (Operator.attributeSelection.token line').isOperator ":" = true := rfl
    have hread := reads_value hvalue (hnext.closes rest) base'
      (Operator.attributeSelection.token line' :: (front.reverse ++ passed))
    filter_upwards [htyped, hread] with steps h₁ h₂
    simp only [List.append_assoc, List.cons_append, List.reverse_append, List.reverse_cons,
      List.nil_append] at hstart h₁ h₂ ⊢
    simp [allocation, hstart, h₁, hvalid, hcolon, Operator.token_kind_ne_eof, h₂,
      expectStatementEnd_run hnext]

/-! ## Assignments -/

theorem operator?_assignment (op : AssignmentOperator) (line : ℕ) :
    (op.val.token line).operator? = some op.val := by
  have hspelled : ∀ op : Operator, op.isCopyAssignment = true → op ∈ Operator.spelled := by
    intro op
    cases op <;> decide +kernel
  exact Operator.operator?_token (hspelled op.val op.property) line

theorem copyOperator_run (op : AssignmentOperator) (line : ℕ) (base : Session)
    (passed : List Token) {ahead : List Token} (hahead : ahead ≠ []) :
    copyOperator (base.between passed (op.val.token line :: ahead)) =
      .ok op.val (base.between (op.val.token line :: passed) ahead) := by
  have hcopy := op.property
  simp [copyOperator, Operator.token_kind_ne_eof, hahead, operator?_assignment, hcopy]

/-- Where an assignment ends an expression, its operator does. -/
theorem closes_assignment (op : AssignmentOperator) (line : ℕ) (rest : List Token) :
    Closes { stopsAtAssignment := true } 0 (op.val.token line) rest := by
  refine ⟨?_, .inr ⟨op.val, operator?_assignment op line, .inl ?_⟩⟩
  · have hand : op.val ≠ .bitAnd := by
      intro hand
      have hcopy := op.property
      rw [hand] at hcopy
      exact absurd hcopy (by decide)
    simp [Unmarked, Operator.token_isOperator_bitAnd, hand]
  · have hcopy := op.property
    simp [isLeftToStatement, hcopy]

theorem takes_assignment (line : ℕ) (op : AssignmentOperator) {target value : Term}
    (hspells : Spells (target.print { guarded := true } ++
      .operator op.val :: Pattern.startingOn line (value.print {})) tokens)
    (hnext : EndsStatement next) (rest : List Token) :
    Takes (fun parse => assignment parse line) tokens (next :: rest)
      ⟨Sentence.assignmentForm op.val target.tree value.tree, line⟩ := by
  obtain ⟨front, back, hfront, hback, rfl⟩ := spells_append_iff.mp hspells
  obtain ⟨line', more, hmore, rfl⟩ := spells_operator_iff.mp hback
  obtain ⟨hvalue, hline⟩ := (beginsOperand_place {} 0 value).spells_startingOn hmore
  obtain ⟨first, others, rfl, heof, hmarks, -, -⟩ :=
    (beginsOperand_place {} 0 value).spells hvalue
  obtain rfl := hline first rfl
  have hsemicolon := hmarks ";" (by decide)
  intro base passed
  have htarget : Reads (.expression { stopsAtAssignment := true })
      (base.between passed (front ++ op.val.token line' :: (first :: others ++ next :: rest)))
      target.tree
      (base.between (front.reverse ++ passed)
        (op.val.token line' :: (first :: others ++ next :: rest))) :=
    reads_print le_rfl target hfront rfl rfl (fun _ => rfl) (closes_assignment op line' _)
  have hread := reads_value hvalue (hnext.closes rest) base
    (op.val.token line' :: (front.reverse ++ passed))
  have hoperator := copyOperator_run op line' base (front.reverse ++ passed)
    (show first :: (others ++ next :: rest) ≠ [] by simp)
  refine ⟨base, ?_⟩
  filter_upwards [htarget, hread] with steps h₁ h₂
  simp only [List.append_assoc, List.cons_append, List.reverse_append, List.reverse_cons,
    List.nil_append] at h₁ h₂ ⊢
  have hend : (base.between (op.val.token line' :: (front.reverse ++ passed))
      (first :: (others ++ next :: rest))).atEnd = false := by
    simpa [Session.atEnd, Cursor.atEnd] using heof
  cases hbase : op.val.compoundBase? <;>
    simp [assignment, h₁, hoperator, hsemicolon, hend, h₂, expectStatementEnd_run hnext,
      Sentence.assignmentForm, hbase]

/-! ## Moves -/

theorem takes_movement (line : ℕ) (leftward : Bool) {destination source : Term}
    (hspells : Spells (Sentence.printMovement leftward destination source) tokens)
    (hnext : EndsStatement next) (rest : List Token) :
    Takes (fun parse => movement parse line) tokens (next :: rest)
      ⟨.movement destination.tree source.tree, line⟩ := by
  obtain ⟨arrow, first, second, hmove, htext, hresult⟩ : ∃ (arrow : Operator) (first second : Term),
      arrow.isMoveAssignment = true ∧
      Spells (first.print {} ++ .operator arrow :: second.print {}) tokens ∧
      ∀ later : Session,
        (if arrow = .leftArrow then
          (.ok ⟨.movement first.tree second.tree, line⟩ later :
            EStateM.Result Failure Session Statement)
        else .ok ⟨.movement second.tree first.tree, line⟩ later) =
        .ok ⟨.movement destination.tree source.tree, line⟩ later := by
    cases leftward with
    | true => exact ⟨.leftArrow, destination, source, rfl, hspells, fun _ => rfl⟩
    | false => exact ⟨.rightArrow, source, destination, rfl, hspells, fun _ => rfl⟩
  obtain ⟨front, back, hfront, hback, rfl⟩ := spells_append_iff.mp htext
  obtain ⟨line', more, hmore, rfl⟩ := spells_operator_iff.mp hback
  have harrows : ∀ op : Operator, op.isMoveAssignment = true →
      op ∈ Operator.spelled ∧ op ≠ .bitAnd := by
    intro op
    cases op <;> decide +kernel
  obtain ⟨hspelled, hand⟩ := harrows arrow hmove
  have hop := Operator.operator?_token hspelled line'
  have hcloses : Closes {} 0 (arrow.token line') (more ++ next :: rest) := by
    refine ⟨by simp [Unmarked, Operator.token_isOperator_bitAnd, hand],
      .inr ⟨arrow, hop, .inl ?_⟩⟩
    simp [isLeftToStatement, hmove]
  intro base passed
  have hfirst := reads_value hfront hcloses base passed
  have hsecond := reads_value hmore (hnext.closes rest) base
    (arrow.token line' :: (front.reverse ++ passed))
  refine ⟨base, ?_⟩
  filter_upwards [hfirst, hsecond] with steps h₁ h₂
  simp only [List.append_assoc, List.cons_append, List.reverse_append, List.reverse_cons,
    List.nil_append]
  simp [movement, h₁, hop, hmove, Operator.token_kind_ne_eof, h₂, expectStatementEnd_run hnext,
    hresult]

/-! ## Returns and calls -/

theorem takes_returnedValue (line : ℕ) {value : Option Term}
    (hspells : Spells (Sentence.printReturned value) tokens)
    (hnext : next.isPunctuation ";" = true) (rest : List Token) :
    Takes (fun parse => returnedValue parse line) tokens (next :: rest)
      ((value.map Term.tree).getD .voidLiteral) := by
  have hends : EndsStatement next := .inl hnext
  intro base passed
  refine ⟨base, ?_⟩
  cases value with
  | none =>
    rw [spells_nil_iff.mp hspells]
    refine .of_forall fun steps => ?_
    simp [returnedValue, hnext]
  | some value =>
    have hread := reads_value hspells (hends.closes rest) base passed
    obtain ⟨first, more, rfl, -, hmarks, hwords, -⟩ :=
      (beginsOperand_place {} 0 value).spells hspells
    have hsemicolon := hmarks ";" (by decide)
    have hvoid := hwords "void" (by decide)
    filter_upwards [hread] with steps h₁
    simp only [List.cons_append] at h₁ ⊢
    simp [returnedValue, hsemicolon, hvoid, h₁, expectStatementEnd_run hends]

theorem takes_call (line : ℕ) {callee : Term} {args : List Term}
    (hspells : Spells (Pattern.startingOn line ((Term.call callee args).print {})) tokens)
    (hnext : EndsStatement next) (rest : List Token) (isParameter : Bool) :
    Takes (fun parse => parse (.statement isParameter)) tokens (next :: rest)
      (some ⟨.call (Term.call callee args).tree, line⟩) := by
  obtain ⟨hcall, hline⟩ :=
    (beginsOperand_place {} 0 (Term.call callee args)).spells_startingOn hspells
  obtain ⟨line', more, -, rfl⟩ := spells_operator_iff.mp hcall
  obtain rfl : line' = line := hline _ rfl
  refine .of_rule fun base passed => ⟨base, ?_⟩
  have hread := reads_value hcall (hnext.closes rest) base passed
  filter_upwards [hread] with steps h₁
  show statementRule (descend steps) isParameter _ = _
  have hkind : (Operator.controlTransfer.token line').kind = .operator := rfl
  have hat : (Operator.controlTransfer.token line').isOperator
      Operator.controlTransfer.symbol = true := rfl
  have hconst : (Term.call callee args).tree.isCall = true := rfl
  simp only [List.cons_append] at h₁ ⊢
  simp [statementRule, hkind, hat, callStatement, h₁, hconst, expectStatementEnd_run hnext]
  rfl

/-! ## Constructions -/

/-- A comma stands behind an initializer unless nothing more follows it. -/
theorem printMembers_cons (hasDefault : Bool) (member : String × Term)
    (more : List (String × Term)) :
    Sentence.printMembers hasDefault (member :: more) =
      Sentence.printMember member ++
        if more.isEmpty && !hasDefault then []
        else .mark "," :: Sentence.printMembers hasDefault more := by
  cases more with
  | nil => cases hasDefault <;> rfl
  | cons second more => rfl

/-- The name of a member and its value, up to what ends the value. -/
theorem reads_member {member : String × Term} (hspells : Spells (Sentence.printMember member) tokens)
    (hnext : endsExpression (.within .brace) next = true ∧ next.isOperator "&" = false)
    (rest : List Token) (base : Session) (passed : List Token) :
    ∃ line line' value,
      tokens = ⟨.identifier, member.1, line⟩ :: Operator.attributeSelection.token line' :: value ∧
      Reads (.expression { closing := .brace, stopsAtAssignment := true })
        (base.between passed (tokens ++ next :: rest)) (.identifier member.1 false)
        (base.between (⟨.identifier, member.1, line⟩ :: passed)
          (Operator.attributeSelection.token line' :: (value ++ next :: rest))) ∧
      Reads (.expression (.within .brace))
        (base.between (Operator.attributeSelection.token line' ::
          ⟨.identifier, member.1, line⟩ :: passed) (value ++ next :: rest)) member.2.tree
        (base.between (tokens.reverse ++ passed) (next :: rest)) := by
  obtain ⟨line, more, hmore, rfl⟩ := spells_identifier_iff.mp hspells
  obtain ⟨line', value, hvalue, rfl⟩ := spells_operator_iff.mp hmore
  refine ⟨line, line', value, rfl, ?_, ?_⟩
  · have hname : Spells ((Term.name member.1).print { guarded := true })
        [⟨.identifier, member.1, line⟩] :=
      spells_identifier_iff.mpr ⟨line, [], spells_nil_iff.mpr rfl, rfl⟩
    have hcolon : Closes { closing := .brace, stopsAtAssignment := true } 0
        (Operator.attributeSelection.token line') (value ++ next :: rest) :=
      ⟨rfl, .inr ⟨.attributeSelection, rfl, .inl rfl⟩⟩
    exact reads_print le_rfl (.name member.1) hname rfl rfl (fun _ => rfl) hcolon
  · have hcloses : Closes (.within .brace) 0 next rest :=
      ⟨by simp [Unmarked, hnext.2], .inl hnext.1⟩
    simp only [List.reverse_cons, List.append_assoc, List.cons_append, List.nil_append]
    exact reads_print le_rfl member.2 hvalue rfl rfl (fun h => by cases h) hcloses

/-- The last member is read up to the closing brace. -/
theorem takes_lastMember {member : String × Term}
    (hspells : Spells (Sentence.printMember member) tokens)
    (hclosing : next.isPunctuation Grouping.brace.closing = true) (rest : List Token) :
    Takes (fun parse => parse .initializers) tokens (next :: rest)
      (Sentence.initializers [member]) := by
  refine .of_rule fun base passed => ⟨base, ?_⟩
  have hends : endsExpression (.within .brace) next = true := by
    simp [endsExpression, Context.within, hclosing]
  obtain ⟨line, line', value, rfl, hname, hvalue⟩ := reads_member hspells
    ⟨hends, by simp [Token.isOperator, Token.hasForm, kind_of_isPunctuation hclosing]⟩ rest base
    passed
  have hstop : Reads .initializers (base.between
      ((⟨.identifier, member.1, line⟩ :: Operator.attributeSelection.token line' ::
        value).reverse ++ passed) (next :: rest)) [] (base.between
      ((⟨.identifier, member.1, line⟩ :: Operator.attributeSelection.token line' ::
        value).reverse ++ passed) (next :: rest)) := by
    refine Reads.of_rule (.of_forall fun steps => ?_)
    show initializersRule (descend steps) _ = _
    simp [initializersRule, hclosing]
  have hcomma : next.isPunctuation "," = false := isPunctuation_of_ne hclosing (by decide)
  have hcolon : (Operator.attributeSelection.token line').isOperator ":" = true := rfl
  filter_upwards [hname, hvalue, hstop] with steps h₁ h₂ h₃
  show initializersRule (descend steps) _ = _
  simp only [List.cons_append, List.append_assoc, List.reverse_cons, List.nil_append] at h₁ h₂ h₃ ⊢
  simp [initializersRule, h₁, hcolon, Operator.token_kind_ne_eof, h₂, hcomma, hclosing, h₃,
    Sentence.initializers]

/-- A member with a comma behind it is read in front of what is read as further members. -/
theorem takes_member {member : String × Term} {members : List (String × Term)}
    {first front behind : List Token} (hspells : Spells (Sentence.printMember member) first)
    (h : Takes (fun parse => parse .initializers) front behind (Sentence.initializers members))
    (hbehind : behind ≠ []) (comma : ℕ) :
    Takes (fun parse => parse .initializers) (first ++ ⟨.punctuation, ",", comma⟩ :: front) behind
      (Sentence.initializers (member :: members)) := by
  refine .of_rule fun base passed => ?_
  obtain ⟨line, line', value, rfl, hname, hvalue⟩ := reads_member hspells
    (show endsExpression (.within .brace) ⟨.punctuation, ",", comma⟩ = true ∧ _ from
      ⟨by simp [endsExpression], rfl⟩) (front ++ behind) base passed
  obtain ⟨base', hinitializers⟩ := h base (⟨.punctuation, ",", comma⟩ ::
    ((⟨.identifier, member.1, line⟩ :: Operator.attributeSelection.token line' ::
      value).reverse ++ passed))
  refine ⟨base', ?_⟩
  have hcolon : (Operator.attributeSelection.token line').isOperator ":" = true := rfl
  filter_upwards [hname, hvalue, hinitializers] with steps h₁ h₂ h₃
  show initializersRule (descend steps) _ = _
  simp only [List.cons_append, List.append_assoc, List.reverse_cons, List.reverse_append,
    List.nil_append] at h₁ h₂ h₃ ⊢
  simp [initializersRule, h₁, hcolon, Operator.token_kind_ne_eof, h₂, h₃, hbehind,
    Sentence.initializers]

/-- Initializers are read up to the word `default` or the closing brace. The induction is on the
    members, each of which has a comma behind it or the closing brace. -/
theorem takes_initializers {hasDefault : Bool} {members : List (String × Term)}
    (hspells : Spells (Sentence.printMembers hasDefault members) tokens)
    (hclosing : next.isPunctuation Grouping.brace.closing = true) (rest : List Token) :
    ∃ front back, tokens = front ++ back ∧ Spells (if hasDefault then [.word "default"] else []) back ∧
      Takes (fun parse => parse .initializers) front (back ++ next :: rest)
        (Sentence.initializers members) := by
  induction members generalizing tokens with
  | nil =>
    refine ⟨[], tokens, rfl, hspells, .of_rule fun base passed => ⟨base, .of_forall fun steps => ?_⟩⟩
    show initializersRule (descend steps) _ = _
    cases hasDefault with
    | true =>
      obtain ⟨line, more, -, rfl⟩ := spells_word_iff.mp hspells
      simp [initializersRule, Sentence.initializers]
    | false =>
      rw [spells_nil_iff.mp hspells]
      simp [initializersRule, hclosing, Sentence.initializers]
  | cons member members ih =>
    rw [printMembers_cons] at hspells
    obtain ⟨first, others, hfirst, hothers, rfl⟩ := spells_append_iff.mp hspells
    by_cases hlast : (members.isEmpty && !hasDefault) = true
    · rw [if_pos hlast] at hothers
      obtain rfl := spells_nil_iff.mp hothers
      obtain ⟨rfl, rfl⟩ : members = [] ∧ hasDefault = false := by simpa using hlast
      exact ⟨first, [], rfl, spells_nil_iff.mpr rfl, takes_lastMember hfirst hclosing rest⟩
    · rw [if_neg hlast] at hothers
      obtain ⟨comma, others, hmore, rfl⟩ := spells_mark_iff.mp hothers
      obtain ⟨front, back, rfl, hback, hread⟩ := ih hmore
      exact ⟨first ++ ⟨.punctuation, ",", comma⟩ :: front, back, by simp, hback,
        takes_member hfirst hread (by simp) comma⟩

/-- A construction with both its braces. -/
theorem takes_construction {hasDefault : Bool} {members : List (String × Term)}
    (hspells : Spells (.mark Grouping.brace.opening ::
      (Sentence.printMembers hasDefault members ++ [.mark Grouping.brace.closing])) tokens)
    (next : Token) (rest : List Token) :
    Takes (fun parse => construction parse none) tokens (next :: rest)
      (Sentence.constructed members hasDefault) := by
  obtain ⟨line, more, hmore, rfl⟩ := spells_mark_iff.mp hspells
  obtain ⟨line', inside, hinside, rfl⟩ := spells_concat_mark_iff.mp hmore
  obtain ⟨front, back, rfl, hback, hread⟩ := takes_initializers hinside
    (show Token.isPunctuation ⟨.punctuation, Grouping.brace.closing, line'⟩
      Grouping.brace.closing = true from rfl) (next :: rest)
  intro base passed
  obtain ⟨base', hinitializers⟩ := hread base (⟨.punctuation, Grouping.brace.opening, line⟩ :: passed)
  refine ⟨base', ?_⟩
  filter_upwards [hinitializers] with steps h₁
  simp only [List.cons_append, List.append_assoc, List.reverse_cons, List.reverse_append,
    List.nil_append, List.reverse_nil] at h₁ ⊢
  cases hasDefault with
  | true =>
    obtain ⟨line'', nothing, hnothing, rfl⟩ := spells_word_iff.mp hback
    rw [spells_nil_iff.mp hnothing] at h₁ ⊢
    simp only [List.cons_append, List.nil_append] at h₁
    have hcomma : Grouping.brace.closing ≠ "," := by decide
    simp [construction, expectPunctuation, h₁, hcomma, Sentence.constructed]
  | false =>
    rw [spells_nil_iff.mp hback] at h₁ ⊢
    simp only [List.nil_append] at h₁
    simp [construction, expectPunctuation, h₁, Sentence.constructed]

theorem takes_constructStatement (line : ℕ) {target : Term} {members : List (String × Term)}
    {hasDefault : Bool}
    (hspells : Spells (target.print {} ++ .mark Grouping.brace.opening ::
      (Sentence.printMembers hasDefault members ++ [.mark Grouping.brace.closing])) tokens)
    (next : Token) (rest : List Token) :
    Takes (fun parse => constructStatement parse line) tokens (next :: rest)
      ⟨.construction target.tree (Sentence.constructed members hasDefault), line⟩ := by
  obtain ⟨front, back, hfront, hback, rfl⟩ := spells_append_iff.mp hspells
  have hread := takes_construction hback next rest
  obtain ⟨line', more, -, rfl⟩ := spells_mark_iff.mp hback
  intro base passed
  have hcloses : Closes { stopsAtBrace := true } 0
      ⟨.punctuation, Grouping.brace.opening, line'⟩ (more ++ next :: rest) :=
    ⟨rfl, .inl (by simp [endsExpression])⟩
  have htarget : Reads (.expression { stopsAtBrace := true }) (base.between passed
      (front ++ ⟨.punctuation, Grouping.brace.opening, line'⟩ :: (more ++ next :: rest))) target.tree
      (base.between (front.reverse ++ passed)
        (⟨.punctuation, Grouping.brace.opening, line'⟩ :: (more ++ next :: rest))) :=
    reads_print le_rfl target hfront rfl rfl (fun h => by cases h) hcloses
  obtain ⟨base', hconstruction⟩ := hread base (front.reverse ++ passed)
  refine ⟨base', ?_⟩
  filter_upwards [htarget, hconstruction] with steps h₁ h₂
  simp only [List.cons_append, List.append_assoc, List.reverse_append] at h₁ h₂ ⊢
  simp [constructStatement, h₁, h₂]

end SinFrontend.Parser
