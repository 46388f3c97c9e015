import SinFrontend.Proofs.Trees.Statements

/-!
# Expressions are read as far as they go

Behind an operand, operators are read as long as they bind tighter than a floor. Where the reading
stops is told by the tokens there alone: not by the operand in front of them, nor by the steps that
were left. So an expression that was read takes nothing more, on its own floor and on every higher
one.

The right operand of an operator is handed to a second reading of operations behind it. That reading
finds nothing, unless the operand begins with a list: a list takes part in no operation where it is
read, but it does where it is handed on.

* `Parser.BeginsWithList`: an expression that begins with a list.
* `Parser.stops_of_expression`: an expression that begins otherwise ends where operations stop.
* `Parser.operationOnce`: an operator whose right operand is taken as it was read.
* `Parser.operations_of_expression`: a further reading of operations changes nothing.
-/

namespace SinFrontend.Parser

variable {context : Context} {floor higher steps : ℕ} {s later : Session}
  {left result e : Expression}

/-! ## Where operations stop -/

theorem Stops.mono (h : Stops context floor s) (hle : floor ≤ higher) :
    Stops context higher s := by
  cases h with
  | ends next => exact .ends next
  | statement spells hleft => exact .statement spells hleft
  | mark spells word => exact .mark spells word
  | weak spells binary level => exact .weak spells binary (level.trans hle)

/-- Neither the floor of a context nor its welcome to operators plays a part in where operations
    stop. -/
theorem Stops.of_operand {inner : ℕ} (h : Stops (context.operand inner) floor s) :
    Stops context floor s := by
  cases h with
  | ends next => exact .ends next
  | statement spells hleft => exact .statement spells hleft
  | mark spells word => exact .mark spells word
  | weak spells binary level => exact .weak spells binary level

/-- An operation becomes the left operand of what follows on the same floor, so the last one stands
    where operations stop. -/
theorem stops_of_operations
    (h : descend steps (.operations left floor context) s = .ok result later) :
    Stops context floor later := by
  induction steps generalizing left s with
  | zero => cases h
  | succ steps ih =>
    rcases operationsRule_ok h with ⟨-, -, hstops⟩ | ⟨op, combined, middle, -, -, -, hmore⟩
    · exact hstops
    · exact ih hmore

/-- Where assignments end an expression, operations stop at one. -/
theorem stops_of_atAssignment (hcontext : context.stopsAtAssignment = true)
    (h : s.cursor.current.operator?.any
      (fun op => op.isCopyAssignment || op.isMoveAssignment) = true) :
    Stops context floor s := by
  obtain ⟨op, hspells, hassigns⟩ := (Option.any_eq_true ..).mp h
  refine .statement hspells ?_
  rcases Bool.or_eq_true_iff.mp hassigns with hcopy | hmove
  · simp [isLeftToStatement, hcontext, hcopy]
  · simp [isLeftToStatement, hmove]

/-! ## Where expressions end -/

/-- The operand that an expression begins with. The mark tells whether it is a list. -/
def firstOperand (parse : Descent) (context : Context) : Parser (Expression × Bool) := do
  discard <| takeKeyword "constexpr"
  operand parse context (← advance)

/-- Whether an expression whose parts are read in some steps begins with a list. -/
def BeginsWithList (steps : ℕ) (context : Context) (s : Session) : Prop :=
  ∃ list later, firstOperand (descend steps) context s = .ok (list, true) later

/-- A name is no list. -/
theorem not_beginsWithList_of_identifier (hs : s.Tidy) (h : s.cursor.current.kind = .identifier) :
    ¬ BeginsWithList steps context s := by
  rintro ⟨list, later, hrun⟩
  have hword : s.cursor.current.isKeyword "constexpr" = false := by
    simp [Token.isKeyword, Token.hasForm, h]
  have hread : (s.on .advance).cursor.previous = s.cursor.current :=
    hs.advance_previous (by simp [h])
  simp [firstOperand, operand, hword, hread, h] at hrun

/-- Behind an operand that is no list, an expression ends where operations stop. -/
theorem stops_of_continueOperand {marked : Bool} {operand : Expression}
    (hcontext : context.primaryOnly = false)
    (h : continueOperand (descend steps) context marked (operand, false) s = .ok e later) :
    Stops context context.floor later := by
  obtain ⟨⟨layered, constexpr⟩, middle, -, h⟩ := exists_of_bind h
  simp only [hcontext, Bool.or_false, Bool.false_eq_true, if_false] at h
  obtain ⟨assigns, _, hassigns, h⟩ := exists_of_bind h
  cases hassigns
  rw [ite_run] at h
  split at h
  next hstops =>
    cases h
    obtain ⟨hstopsAt, hnext⟩ := Bool.and_eq_true_iff.mp hstops
    exact stops_of_atAssignment hstopsAt hnext
  next => exact stops_of_operations h

/-- An expression that does not begin with a list ends where operations stop. -/
theorem stops_of_expression (hcontext : context.primaryOnly = false)
    (hlist : ¬ BeginsWithList steps context s)
    (h : descend (steps + 1) (.expression context) s = .ok e later) :
    Stops context context.floor later := by
  obtain ⟨marked, behind, hmarked, h⟩ := exists_of_bind h
  obtain ⟨token, begun, htoken, h⟩ := exists_of_bind h
  obtain ⟨⟨first, isList⟩, middle, hfirst, h⟩ := exists_of_bind h
  cases isList with
  | false => exact stops_of_continueOperand hcontext h
  | true =>
    refine absurd ⟨first, middle, ?_⟩ hlist
    rw [firstOperand, bind_run, discard_run, hmarked]
    dsimp only
    rw [bind_run, htoken]
    exact hfirst

/-! ## Right operands -/

/-- An operator with its right operand, where the operand is taken as it was read. -/
def operationOnce (parse : Descent) (left : Expression) (op : Operator) (context : Context) :
    Parser Expression := do
  match op with
  | .index =>
    move Cursor.advance
    index parse left
  | .procOperator => arguments parse left context
  | _ =>
    let line ← currentLine
    move Cursor.advance
    let right ← parse (.expression (context.operand op.precedence))
    combine op left right line

/-- A right operand that does not begin with a list is complete as it was read. -/
theorem operation_eq_operationOnce (left : Expression) (op : Operator)
    (hlist : ¬ BeginsWithList steps (context.operand op.precedence) (s.on .advance)) :
    operation (descend (steps + 1)) left op context s =
      operationOnce (descend (steps + 1)) left op context s := by
  have hright : (do
        let right ← descend (steps + 1) (.expression (context.operand op.precedence))
        let right ← descend (steps + 1) (.operations right op.precedence context)
        combine op left right s.cursor.current.line) (s.on .advance) =
      (do
        let right ← descend (steps + 1) (.expression (context.operand op.precedence))
        combine op left right s.cursor.current.line) (s.on .advance) := by
    rw [bind_run, bind_run]
    cases hread : descend (steps + 1) (.expression (context.operand op.precedence))
        (s.on .advance) with
    | error failure later => rfl
    | ok right later =>
      have hstops : Stops context op.precedence later :=
        (stops_of_expression rfl hlist hread).of_operand
      have hmore : descend (steps + 1) (.operations right op.precedence context) later =
          .ok right later := operationsRule_of_stops hstops _ right
      simp only [bind_run, hmore]
  cases op with
  | index => rfl
  | procOperator => rfl
  | _ => exact hright

/-! ## A further reading of operations -/

/-- An expression that welcomes operators and does not begin with a list is read as far as it goes:
    on its own floor and on every higher one, operations behind it are read without any effect. So
    an operator may as well take its right operand as it was read, unless that begins with a
    list. -/
theorem operations_of_expression (steps : ℕ) (context : Context) (s : Session) :
    (∀ e later, context.primaryOnly = false → ¬ BeginsWithList steps context s →
      descend (steps + 1) (.expression context) s = .ok e later →
      ∀ floor ≥ context.floor, ∀ more,
        descend (more + 1) (.operations e floor context) later = .ok e later) ∧
    ∀ left op, ¬ BeginsWithList steps (context.operand op.precedence) (s.on .advance) →
      operation (descend (steps + 1)) left op context s =
        operationOnce (descend (steps + 1)) left op context s := by
  constructor
  · intro e later hcontext hlist hread floor hfloor more
    exact operationsRule_of_stops ((stops_of_expression hcontext hlist hread).mono hfloor) _ e
  · exact fun left op hlist => operation_eq_operationOnce left op hlist

/-- A product behind which a sum goes on, and its right operand: nothing more is read behind either
    on the floor of the product. -/
theorem operations_of_expression_product :
    ∃ tokens e later,
      Token.ofText "a * b + c;" = .ok tokens ∧
      expression { floor := 10 } (.ofTokens tokens) = .ok e later ∧
      full (.operations e 15 { floor := 10 }) later = .ok e later ∧
      operation (descend 63) (.identifier "a" false) .mult {}
          ((Session.ofTokens tokens).on .advance) =
        operationOnce (descend 63) (.identifier "a" false) .mult {}
          ((Session.ofTokens tokens).on .advance) := by
  have hreads : readsAs (expression { floor := 10 }) (fun tokens _ =>
      let start := Session.ofTokens tokens
      let right := (start.on .advance).on .advance
      start.cursor.current.kind == .identifier && right.cursor.current.kind == .identifier)
      "a * b + c;" = true := by
    decide +kernel
  obtain ⟨tokens, e, later, htokens, hrun, htest⟩ := exists_of_readsAs hreads
  obtain ⟨hstart, hright⟩ := Bool.and_eq_true_iff.mp htest
  have htidy : (Session.ofTokens tokens).Tidy := Session.tidy_ofTokens tokens
  have hfirst : ¬ BeginsWithList (8 * (Session.ofTokens tokens).cursor.size + 7) { floor := 10 }
      (.ofTokens tokens) := not_beginsWithList_of_identifier htidy (beq_iff_eq.mp hstart)
  refine ⟨tokens, e, later, htokens, hrun, ?_, ?_⟩
  · exact (operations_of_expression _ _ _).1 e later rfl hfirst hrun 15 (by decide) _
  · have hread := Session.tidy_advance htidy
    exact (operations_of_expression 62 _ _).2 _ .mult (not_beginsWithList_of_identifier
      (Session.tidy_advance hread) (beq_iff_eq.mp hright))

end SinFrontend.Parser
