import SinFrontend.Proofs.Reading

/-!
# Readings of groups

A group in parentheses is read from its elements, each of which is read on its own. Several
elements make a list, and a single one stands for itself. The arguments of a procedure are read as
one group and told apart by what it is read as, so that a list in the place of a single argument
is taken for the list of the arguments.

* `group_of_elements`: what a group is read as, from the readings of its elements.
* `received`: the arguments that a procedure gets.
* `procedure_of_group`: a group behind a name makes a procedure.
-/

namespace SinFrontend

/-- Whether an expression is a list. -/
def Expression.isList : Expression → Bool
  | list .. => true
  | _ => false

namespace Parser

variable {s t later : Session} {context : Context} {value : Expression}
  {values : List Expression}

/-! ## Elements -/

theorem reads_elements_nil (hcomma : s.cursor.current.isPunctuation "," = false)
    (context : Context) : Reads (.elements context) s [] s := by
  refine .of_rule (.of_forall fun steps => ?_)
  show elementsRule (descend steps) _ _ = _
  simp [elementsRule, hcomma]

/-- An element behind a comma is read, and then the further ones. -/
theorem reads_elements_cons (hcomma : s.cursor.current.isPunctuation "," = true)
    (hfirst : Reads (.expression context) (s.on .advance) value t)
    (hmore : Reads (.elements context) t values later) :
    Reads (.elements context) s (value :: values) later := by
  refine .of_rule ?_
  filter_upwards [hfirst, hmore] with steps h₁ h₂
  show elementsRule (descend steps) _ _ = _
  simp [elementsRule, hcomma, h₁, h₂]

/-! ## Groups -/

/-- What elements in parentheses are read as, and whether that is a list. -/
def groupOf : List Expression → Expression × Bool
  | [] => (.emptyList .tuple, true)
  | [value] => (value, false)
  | values => (.list .tuple values .empty (values.all Expression.isConst), true)

theorem group_empty (hclosing : s.cursor.current.isPunctuation ")" = true) (parse : Descent) :
    group parse .paren s = .ok (groupOf []) (s.on .advance) := by
  simp [group, Grouping.closing, hclosing, listKindOf, Grouping.listKind?, groupOf]

/-- A group is read from its first element and the further ones, which begin with a comma. -/
theorem group_of_elements (hopen : s.cursor.current.isPunctuation ")" = false)
    (hfirst : Reads (.expression (.within .paren)) s value t)
    (hcomma : t.cursor.current.isPunctuation "," = true ↔ values ≠ [])
    (hmore : Reads (.elements (.within .paren)) t values later)
    (hclosing : later.cursor.current.isPunctuation ")" = true) :
    ∀ᶠ steps in Filter.atTop, group (descend steps) .paren s =
      .ok (groupOf (value :: values)) (later.on .advance) := by
  cases values with
  | nil =>
    have hnone : t.cursor.current.isPunctuation "," = false := by simpa using hcomma
    obtain ⟨-, rfl⟩ := hmore.unique (reads_elements_nil hnone _)
    filter_upwards [hfirst] with steps h₁
    simp [group, Grouping.closing, hopen, h₁, hnone, expectPunctuation, hclosing, groupOf]
  | cons second more =>
    have hsome : t.cursor.current.isPunctuation "," = true := by simpa using hcomma
    filter_upwards [hfirst, hmore] with steps h₁ h₂
    simp [group, Grouping.closing, hopen, h₁, hsome, listKindOf, Grouping.listKind?, h₂,
      expectPunctuation, hclosing, groupOf]

/-! ## Arguments -/

/-- The arguments that a procedure gets: those that are written, unless a list is the only one,
    whose elements it gets instead. -/
def received : List Expression → List Expression
  | [.list _ elements _ _] => elements
  | values => values

/-- A procedure gets the arguments that are written, unless a list is the only one. -/
theorem received_eq_self_iff :
    received values = values ↔ ∀ value, values = [value] → value.isList = false := by
  constructor
  · rintro h value rfl
    cases value with
    | list kind elements qualities constant =>
      -- No list is among its own elements.
      have hsize : sizeOf elements = sizeOf [Expression.list kind elements qualities constant] :=
        congrArg sizeOf h
      simp at hsize
      omega
    | _ => rfl
  · intro h
    rcases values with _ | ⟨value, _ | ⟨second, more⟩⟩
    · rfl
    · have hlist : value.isList = false := h value rfl
      cases value with
      | list => cases hlist
      | _ => rfl
    · cases value <;> rfl

variable {base : Session} {passed rest : List Token} {next : Token}

/-- A group of arguments behind a name makes a procedure. -/
theorem procedure_of_group (hopening : s.cursor.current.isPunctuation "(" = true)
    (hprevious : (s.on .advance).cursor.previous = s.cursor.current)
    (hgroup : ∀ᶠ steps in Filter.atTop, group (descend steps) .paren (s.on .advance) =
      .ok (groupOf values) (base.between passed (next :: rest)))
    (hconst : (groupOf values).1.isLiteral = true →
      (groupOf values).1.setConst true = (groupOf values).1)
    (hmark : Unmarked next rest) (name : Expression) (context : Context) :
    ∀ᶠ steps in Filter.atTop, arguments (descend steps) name context s =
      .ok (.procedure name (received values) false) (base.between passed (next :: rest)) := by
  have hform : s.cursor.current.kind = .punctuation ∧ s.cursor.current.text = "(" := by
    simpa [Token.isPunctuation, Token.hasForm] using hopening
  have hread : Reads (.expression { context.operand 0 with primaryOnly := true }) s
      (groupOf values).1 (base.between passed (next :: rest)) := by
    refine .of_rule ?_
    filter_upwards [hgroup] with steps h₁
    show expressionRule (descend steps) _ s = _
    simp [expressionRule, hprevious, Token.isKeyword, Token.hasForm, hform, operand,
      Grouping.ofOpening?, Grouping.opening, h₁,
      continueOperand_primary hconst _ hmark (groupOf values).2]
  filter_upwards [hread] with steps h₁
  rcases values with _ | ⟨value, _ | ⟨second, more⟩⟩
  · simp [arguments, h₁, groupOf, Expression.emptyList, received]
  · cases value <;> simp [arguments, h₁, groupOf, received]
  · cases value <;> simp [arguments, h₁, groupOf, received]

end Parser

end SinFrontend
