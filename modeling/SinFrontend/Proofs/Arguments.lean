import SinFrontend.Proofs.RoundTrip.Expression
import SinFrontend.Proofs.Seam.Texts
import SinFrontend.Proofs.Trees.Statements

/-!
# Arguments

A procedure gets the arguments that are written between its parentheses, whatever expressions they
are: each of them is what its text is read as on its own. Only where a list is the single argument,
its elements are taken for the arguments.

* `ArgumentTexts`: the texts of arguments, with commas between them.
* `ArgumentTexts.group`: what arguments in parentheses are read as.
* `expression_arguments`: a procedure gets the arguments that are written, unless a list is the only
  one.
-/

namespace SinFrontend

/-! ## Literals -/

/-- A literal is constant. -/
def Node.LiteralConst : Node → Prop
  | .expression e => e.isLiteral = true → e.isConst = true
  | _ => True

namespace Expression

theorem setConst_of_isConst {expression : Expression} (h : expression.isLiteral = true)
    (hconst : expression.isConst = true) : expression.setConst true = expression := by
  cases expression with
  | literal type value constant =>
    obtain rfl : constant = true := hconst
    rfl
  | _ => cases h

/-- Qualities leave a literal as constant as it is. -/
theorem literalConst_overrideQualities {expression layered : Expression} {qualities : QualitySet}
    (h : Node.LiteralConst (.expression expression))
    (hadded : expression.overrideQualities qualities = (layered, none)) :
    Node.LiteralConst (.expression layered) := by
  intro hliteral
  cases expression with
  | literal type value constant =>
    obtain rfl := congrArg Prod.fst hadded
    exact h rfl
  | _ =>
    obtain rfl := congrArg Prod.fst hadded
    cases hliteral

end Expression

/-- All literals that are read are constant. -/
theorem Node.expressionsInherit_literalConst {word : Token → Prop} :
    ExpressionsInherit word LiteralConst := by
  constructor
  case toTypesInherit => constructor <;> intros <;> trivial
  case constant =>
    intro expression _ _ _
    exact expression.isConst_setConst true
  case overridden =>
    intro expression layered qualities inExpression _ added
    exact Expression.literalConst_overrideQualities inExpression.here added
  case literal => exact fun _ _ _ => rfl
  -- All other nodes are types, or no literals.
  all_goals intros; first | trivial | exact nofun

namespace Parser

/-- A literal that is read is constant. -/
theorem ReadsWhole.setConst {text : List Token} {value : Expression} (h : ReadsWhole text value)
    (hliteral : value.isLiteral = true) : value.setConst true = value := by
  obtain ⟨semicolon, later, -, hread, -⟩ := h
  have hmade := (makes_expression Session.kept_true
    (Node.expressionsInherit_literalConst.statements (fun _ => trivial) (fun _ => trivial)
      fun _ => trivial) {} trivial hread).1
  exact Expression.setConst_of_isConst hliteral (hmade.here hliteral)

/-! ## Texts of arguments -/

/-- The texts of further arguments, each with the comma before it, and what they are read as. -/
inductive FurtherTexts : List Token → List Expression → Prop where
  | nil : FurtherTexts [] []
  | cons {comma : Token} {text tokens : List Token} {value : Expression}
    {values : List Expression} (separator : comma.isPunctuation "," = true)
    (whole : ReadsWhole text value) (more : FurtherTexts tokens values) :
    FurtherTexts (comma :: (text ++ tokens)) (value :: values)

/-- The texts of arguments with commas between them, and what they are read as. -/
inductive ArgumentTexts : List Token → List Expression → Prop where
  | none : ArgumentTexts [] []
  | some {text tokens : List Token} {value : Expression} {values : List Expression}
    (whole : ReadsWhole text value) (more : FurtherTexts tokens values) :
    ArgumentTexts (text ++ tokens) (value :: values)

variable {text inside tokens rest : List Token} {values : List Expression} {value : Expression}
  {first opening closing next : Token} {context : Context} {t : Session}

/-! ## Groups of arguments -/

/-- No expression begins with a mark that opens no group. -/
theorem expressionRule_mark (ht : t.Tidy) (hahead : t.cursor.ahead = first :: rest)
    (hkind : first.kind = .punctuation) (hopens : Grouping.ofOpening? first.text = none)
    (parse : Descent) (context : Context) :
    expressionRule parse context t =
      .error (.rejected ⟨.invalidToken first.text, first.line⟩) (t.on .advance) := by
  obtain ⟨-, -, hprevious⟩ := ht.advance_ahead hahead (by simp [hkind])
  have hcurrent : t.cursor.current = first := (List.cons.inj hahead).1
  simp [expressionRule, hcurrent, hprevious, Token.isKeyword, Token.hasForm, hkind, operand,
    hopens]

/-- A text that is read completely is not empty, and begins with no closing parenthesis. -/
theorem ReadsWhole.exists_first (h : ReadsWhole text value) :
    ∃ first more, text = first :: more ∧ first.isPunctuation ")" = false := by
  obtain ⟨semicolon, s, later, hsemicolon, hs, -, hahead, hread, -⟩ := h.exists_session
  -- Otherwise the text begins with a mark that opens no group.
  have hmark {first : Token} {mark : String} {rest : List Token}
      (hfirst : first.isPunctuation mark = true) (hopens : Grouping.ofOpening? mark = none)
      (hahead : s.cursor.ahead = first :: rest) : False := by
    have hrejected := expressionRule_mark hs hahead (kind_of_isPunctuation hfirst)
      (text_of_isPunctuation hfirst ▸ hopens) (descend (stepsFor s.cursor - 1)) {}
    have hrun : expressionRule (descend (stepsFor s.cursor - 1)) {} s = .ok value later := hread
    rw [hrun] at hrejected
    cases hrejected
  cases text with
  | nil => exact (hmark hsemicolon (by decide) hahead).elim
  | cons first more =>
    refine ⟨first, more, rfl, Bool.eq_false_iff.mpr fun hfirst => ?_⟩
    exact hmark hfirst (by decide) hahead

/-- Behind an argument stands the comma of the next one, or the closing parenthesis. -/
theorem FurtherTexts.exists_stop (h : FurtherTexts tokens values)
    (hclosing : closing.isPunctuation ")" = true) (rest : List Token) :
    ∃ stop more, tokens ++ closing :: rest = stop :: more ∧ IsStop stop := by
  cases h with
  | nil => exact ⟨closing, rest, rfl, .inr hclosing⟩
  | cons separator => exact ⟨_, _, rfl, .inl separator⟩

/-- Further arguments, which begin with a comma, are read as elements. -/
theorem FurtherTexts.reads (h : FurtherTexts tokens values)
    (hclosing : closing.isPunctuation ")" = true) (ht : t.Tidy)
    (hahead : t.cursor.ahead = tokens ++ closing :: rest) :
    (t.cursor.current.isPunctuation "," = true ↔ values ≠ []) ∧
    ReadsUpTo (fun parse => parse (.elements (.within .paren))) t values (closing :: rest) := by
  induction h generalizing t with
  | nil =>
    have hcomma : t.cursor.current.isPunctuation "," = false := by
      rw [(List.cons.inj hahead).1, isPunctuation_of_ne hclosing (by decide)]
    exact ⟨by simp [hcomma], t, reads_elements_nil hcomma _, ht, hahead⟩
  | @cons comma text tokens value values separator whole more ih =>
    have hcomma : t.cursor.current.isPunctuation "," = true := by
      rw [(List.cons.inj hahead).1, separator]
    obtain ⟨ht₁, hahead₁, -⟩ :=
      ht.advance_ahead hahead (by simp [kind_of_isPunctuation separator])
    obtain ⟨stop, others, hstop, hmark⟩ := more.exists_stop hclosing rest
    have hargument : (t.on .advance).cursor.ahead = text ++ stop :: others := by
      rw [hahead₁, ← hstop]
      exact List.append_assoc ..
    obtain ⟨t₂, hvalue, ht₂, hahead₂⟩ := whole.reads hmark ht₁ hargument
    obtain ⟨-, t₃, hvalues, ht₃, hahead₃⟩ := ih ht₂ (hahead₂.trans hstop.symm)
    exact ⟨by simp [hcomma], t₃, reads_elements_cons hcomma hvalue hvalues, ht₃, hahead₃⟩

/-- Arguments and the closing parenthesis behind them are read as a group. -/
theorem ArgumentTexts.group (h : ArgumentTexts inside values)
    (hclosing : closing.isPunctuation ")" = true) (ht : t.Tidy)
    (hahead : t.cursor.ahead = inside ++ closing :: rest) :
    ReadsUpTo (fun parse => Parser.group parse .paren) t (groupOf values) rest := by
  have hkind : closing.kind ≠ .eof := by simp [kind_of_isPunctuation hclosing]
  cases h with
  | none =>
    obtain ⟨ht₁, hahead₁, -⟩ := ht.advance_ahead hahead hkind
    have hclosed : t.cursor.current.isPunctuation ")" = true := by
      rw [(List.cons.inj hahead).1, hclosing]
    exact ⟨_, .of_forall fun steps => group_empty hclosed _, ht₁, hahead₁⟩
  | @some text tokens value values whole more =>
    obtain ⟨first, others, htext, hfirst⟩ := whole.exists_first
    have hopen : t.cursor.current.isPunctuation ")" = false := by
      rw [htext] at hahead
      rw [(List.cons.inj hahead).1, hfirst]
    obtain ⟨stop, others, hstop, hmark⟩ := more.exists_stop hclosing rest
    have hargument : t.cursor.ahead = text ++ stop :: others := by
      rw [hahead, ← hstop, List.append_assoc]
    obtain ⟨t₁, hvalue, ht₁, hahead₁⟩ := whole.reads hmark ht hargument
    obtain ⟨hcomma, t₂, hvalues, ht₂, hahead₂⟩ :=
      more.reads hclosing ht₁ (hahead₁.trans hstop.symm)
    obtain ⟨ht₃, hahead₃, -⟩ := ht₂.advance_ahead hahead₂ hkind
    have hclosed : t₂.cursor.current.isPunctuation ")" = true := by
      rw [(List.cons.inj hahead₂).1, hclosing]
    exact ⟨_, group_of_elements hopen hvalue hcomma hvalues hclosed, ht₃, hahead₃⟩

/-! ## Procedures and calls -/

/-- A group that is a literal is a single argument, which is constant. -/
theorem ArgumentTexts.setConst (h : ArgumentTexts inside values)
    (hliteral : (groupOf values).1.isLiteral = true) :
    (groupOf values).1.setConst true = (groupOf values).1 := by
  cases h with
  | none => cases hliteral
  | some whole more =>
    cases more with
    | nil => exact whole.setConst hliteral
    | cons => cases hliteral

/-- Arguments in parentheses behind a name make a procedure, which gets them from the group. -/
theorem ArgumentTexts.arguments (h : ArgumentTexts inside values)
    (hopening : opening.isPunctuation "(" = true) (hclosing : closing.isPunctuation ")" = true)
    (hmark : Unmarked next rest) (ht : t.Tidy)
    (hahead : t.cursor.ahead = opening :: (inside ++ closing :: next :: rest))
    (name : Expression) (context : Context) :
    ReadsUpTo (fun parse => Parser.arguments parse name context) t
      (.procedure name (received values) false) (next :: rest) := by
  have hcurrent : t.cursor.current = opening := (List.cons.inj hahead).1
  obtain ⟨ht₁, hahead₁, hprevious⟩ :=
    ht.advance_ahead hahead (by simp [kind_of_isPunctuation hopening])
  obtain ⟨t', hgroup, ht', hahead'⟩ := h.group hclosing ht₁ hahead₁
  obtain ⟨base, passed, rfl⟩ := Session.exists_between hahead'
  rw [← hcurrent] at hopening hprevious
  exact ⟨_, procedure_of_group hopening hprevious hgroup h.setConst hmark name context, ht',
    hahead'⟩

/-- A name with arguments is read as a procedure. -/
theorem ArgumentTexts.procedure (h : ArgumentTexts inside values) {name : Token}
    (hname : name.kind = .identifier) (hopening : opening.isPunctuation "(" = true)
    (hclosing : closing.isPunctuation ")" = true) (hplain : context.primaryOnly = false)
    (hfloor : context.floor < 25) (hcloses : Closes context context.floor next rest)
    (ht : t.Tidy)
    (hahead : t.cursor.ahead = name :: opening :: (inside ++ closing :: next :: rest)) :
    ReadsUpTo (fun parse => parse (.expression context)) t
      (.procedure (.identifier name.text false) (received values) false) (next :: rest) := by
  have hkind : name.kind ≠ .eof := by simp [hname]
  obtain ⟨base, passed, rfl⟩ := Session.exists_between hahead
  obtain ⟨ht₁, hahead₁, -⟩ := ht.advance_ahead hahead hkind
  rw [Session.between_advance _ _ _ _ hkind (by simp)] at ht₁ hahead₁
  obtain ⟨t', harguments, ht', hahead'⟩ := h.arguments hopening hclosing hcloses.unmarked ht₁
    hahead₁ (.identifier name.text false) context
  obtain ⟨base', passed', rfl⟩ := Session.exists_between hahead'
  refine ⟨_, ?_, ht', hahead'⟩
  obtain ⟨kind, mark, line⟩ := opening
  obtain ⟨rfl, rfl⟩ : kind = .punctuation ∧ mark = "(" := by simpa using hopening
  have hoperand : ∀ᶠ steps in Filter.atTop,
      operand (descend steps) context name (base.between (name :: passed)
          (⟨.punctuation, "(", line⟩ :: (inside ++ closing :: next :: rest))) =
        .ok (.identifier name.text false, false) (base.between (name :: passed)
          (⟨.punctuation, "(", line⟩ :: (inside ++ closing :: next :: rest))) :=
    .of_forall fun steps => by simp [operand, hname]
  have hstay : Reads (.operations (.procedure (.identifier name.text false) (received values) false)
      context.floor context) (base'.between passed' (next :: rest)) _ _ :=
    reads_operations_of_closes hcloses
  show Reads (.expression context) _ _ _
  refine reads_of_operand (by simp [Token.isKeyword, Token.hasForm, hname]) hkind (by simp) hplain
    (by simp [Expression.isLiteral]) ?_ hoperand (.of_rule ?_)
  · rfl
  filter_upwards [harguments, hstay] with steps h₁ h₂
  show operationsRule (descend steps) _ context.floor context _ = _
  refine (operationsRule_opening (.inr rfl) hfloor _ _ _).trans ?_
  simp [operation, Operator.symbol, h₁, h₂]

/-- The sign `@` in front of a name with arguments makes a call. -/
theorem ArgumentTexts.call (h : ArgumentTexts inside values) {sign name : Token}
    (hsign : sign.isOperator "@" = true) (hname : name.kind = .identifier)
    (hopening : opening.isPunctuation "(" = true) (hclosing : closing.isPunctuation ")" = true)
    (hplain : context.primaryOnly = false) (hfloor : context.floor < 25)
    (hcloses : Closes context context.floor next rest) (ht : t.Tidy)
    (hahead : t.cursor.ahead = sign :: name :: opening :: (inside ++ closing :: next :: rest)) :
    ReadsUpTo (fun parse => parse (.expression context)) t
      (.call (.identifier name.text false) (received values) false) (next :: rest) := by
  obtain ⟨kind, symbol, line⟩ := sign
  obtain ⟨rfl, rfl⟩ : kind = .operator ∧ symbol = "@" := by simpa using hsign
  obtain ⟨base, passed, rfl⟩ := Session.exists_between hahead
  obtain ⟨ht₁, hahead₁, -⟩ := ht.advance_ahead hahead (by simp)
  rw [Session.between_advance _ _ _ _ (by simp) (by simp)] at ht₁ hahead₁
  have hend : Closes (context.operand 24) 24 next rest :=
    (hcloses.operand 24).mono (Nat.le_of_lt_succ hfloor)
  obtain ⟨t', hread, ht', hahead'⟩ := h.procedure hname hopening hclosing rfl
    (show 24 < 25 by decide) hend ht₁ hahead₁
  obtain ⟨base', passed', rfl⟩ := Session.exists_between hahead'
  refine ⟨_, ?_, ht', hahead'⟩
  have hoperand : ∀ᶠ steps in Filter.atTop,
      operand (descend steps) context (Operator.controlTransfer.token line)
          (base.between (⟨.operator, "@", line⟩ :: passed)
            (name :: opening :: (inside ++ closing :: next :: rest))) =
        .ok (.call (.identifier name.text false) (received values) false, false)
          (base'.between passed' (next :: rest)) := by
    filter_upwards [hread] with steps h₁
    show ((operatorOperand (descend steps) context (Operator.controlTransfer.token line)) >>=
      fun value => pure (value, false)) _ = _
    simp [operatorOperand_controlTransfer, h₁]
  exact reads_of_operand (by simp) (by simp) (by simp) hplain (by simp [Expression.isLiteral])
    hcloses.unmarked hoperand (reads_operations_of_closes hcloses)

/-- What is read up to some tokens is read by the parsers for whole trees, too. -/
theorem ReadsUpTo.full {α : Type} {goal : Goal α} {a : α}
    (h : ReadsUpTo (fun parse => parse goal) t a rest) (ht : t.Tidy)
    (hahead : t.cursor.ahead = first :: tokens) (hkind : first.kind ≠ .eof) :
    ∃ later, Parser.full goal t = .ok a later ∧ later.cursor.ahead = rest := by
  obtain ⟨later, hread, -, hlater⟩ := h
  have hreads : Reads goal t a later := hread
  exact ⟨later, hreads.full ht (Session.ready_of_ahead hahead hkind), hlater⟩

/-- A name with arguments in parentheses is read as a procedure, and as a call behind `@`. It gets
    the arguments that are written, exactly unless a list is the only one: then it gets the
    elements of this list. -/
theorem expression_arguments {sign name : Token} (h : ArgumentTexts inside values)
    (hsign : sign.isOperator "@" = true) (hname : name.kind = .identifier)
    (hopening : opening.isPunctuation "(" = true) (hclosing : closing.isPunctuation ")" = true)
    (hplain : context.primaryOnly = false) (hfloor : context.floor < 25)
    (hcloses : Closes context context.floor next rest) :
    (∀ s : Session, s.Tidy →
      s.cursor.ahead = name :: opening :: (inside ++ closing :: next :: rest) →
      ∃ later, expression context s =
        .ok (.procedure (.identifier name.text false) (received values) false) later ∧
        later.cursor.ahead = next :: rest) ∧
    (∀ s : Session, s.Tidy →
      s.cursor.ahead = sign :: name :: opening :: (inside ++ closing :: next :: rest) →
      ∃ later, expression context s =
        .ok (.call (.identifier name.text false) (received values) false) later ∧
        later.cursor.ahead = next :: rest) ∧
    (received values = values ↔ ∀ value, values = [value] → value.isList = false) := by
  refine ⟨fun s hs hahead => ?_, fun s hs hahead => ?_, received_eq_self_iff⟩
  · exact (h.procedure hname hopening hclosing hplain hfloor hcloses hs hahead).full hs hahead
      (by simp [hname])
  · exact (h.call hsign hname hopening hclosing hplain hfloor hcloses hs hahead).full hs hahead
      (by simp [kind_of_isOperator hsign])

/-- The arguments of `f(x, 1)`, and of a call of the same procedure. -/
theorem expression_arguments_two :
    let inside : List Token :=
      [⟨.identifier, "x", 1⟩, ⟨.punctuation, ",", 1⟩, ⟨.int, "1", 1⟩]
    let values : List Expression := [.identifier "x" false, .ofLiteral .int "1"]
    let behind : List Token := [⟨.punctuation, ")", 1⟩, ⟨.punctuation, ";", 1⟩]
    let named : List Token :=
      ⟨.identifier, "f", 1⟩ :: ⟨.punctuation, "(", 1⟩ :: (inside ++ behind)
    ArgumentTexts inside values ∧ Closes {} 0 ⟨.punctuation, ";", 1⟩ [.eof 1] ∧
    (∃ later, expression {} (.ofTokens named) =
      .ok (.procedure (.identifier "f" false) values false) later) ∧
    ∃ later, expression {} (.ofTokens (⟨.operator, "@", 1⟩ :: named)) =
      .ok (.call (.identifier "f" false) values false) later := by
  intro inside values behind named
  have hname : ReadsWhole [⟨.identifier, "x", 1⟩] (.identifier "x" false) :=
    ⟨⟨.punctuation, ";", 1⟩, _, rfl, rfl, rfl⟩
  have hnumber : ReadsWhole [⟨.int, "1", 1⟩] (.ofLiteral .int "1") :=
    ⟨⟨.punctuation, ";", 1⟩, _, rfl, rfl, rfl⟩
  have htexts : ArgumentTexts inside values := .some hname (.cons rfl hnumber .nil)
  have hcloses : Closes {} 0 ⟨.punctuation, ";", 1⟩ [.eof 1] := ⟨rfl, .inl rfl⟩
  have hsign : Token.isOperator ⟨.operator, "@", 1⟩ "@" = true := rfl
  have hopening : Token.isPunctuation ⟨.punctuation, "(", 1⟩ "(" = true := rfl
  have hclosing : Token.isPunctuation ⟨.punctuation, ")", 1⟩ ")" = true := rfl
  have hkind : (⟨.identifier, "f", 1⟩ : Token).kind = .identifier := rfl
  obtain ⟨hprocedure, hcall, -⟩ := expression_arguments htexts hsign hkind hopening hclosing
    rfl (by decide) hcloses
  obtain ⟨later, hread, -⟩ := hprocedure (.ofTokens named) (Session.tidy_ofTokens _) rfl
  obtain ⟨later', hread', -⟩ := hcall (.ofTokens (⟨.operator, "@", 1⟩ :: named))
    (Session.tidy_ofTokens _) rfl
  exact ⟨htexts, hcloses, ⟨later, hread⟩, later', hread'⟩

/-- The pair `(1, 2)` is not kept as the argument of `f((1, 2))`. -/
theorem not_expression_arguments_pair :
    ¬ ∀ (inside : List Token) (values : List Expression), ArgumentTexts inside values →
      ∃ later, expression {} (.ofTokens (⟨.identifier, "f", 1⟩ :: ⟨.punctuation, "(", 1⟩ ::
          (inside ++ [⟨.punctuation, ")", 1⟩, ⟨.punctuation, ";", 1⟩]))) =
        .ok (.procedure (.identifier "f" false) values false) later := by
  intro h
  let pair : List Token := [⟨.punctuation, "(", 1⟩, ⟨.int, "1", 1⟩, ⟨.punctuation, ",", 1⟩,
    ⟨.int, "2", 1⟩, ⟨.punctuation, ")", 1⟩]
  let elements : List Expression := [.ofLiteral .int "1", .ofLiteral .int "2"]
  have hpair : ReadsWhole pair (.list .tuple elements .empty true) :=
    ⟨⟨.punctuation, ";", 1⟩, _, rfl, rfl, rfl⟩
  have htexts : ArgumentTexts (pair ++ []) [.list .tuple elements .empty true] := .some hpair .nil
  have hopening : Token.isPunctuation ⟨.punctuation, "(", 1⟩ "(" = true := rfl
  have hclosing : Token.isPunctuation ⟨.punctuation, ")", 1⟩ ")" = true := rfl
  have hkind : (⟨.identifier, "f", 1⟩ : Token).kind = .identifier := rfl
  have hcloses : Closes {} 0 ⟨.punctuation, ";", 1⟩ [.eof 1] := ⟨rfl, .inl rfl⟩
  let written := Session.ofTokens (⟨.identifier, "f", 1⟩ :: ⟨.punctuation, "(", 1⟩ ::
    (pair ++ [] ++ [⟨.punctuation, ")", 1⟩, ⟨.punctuation, ";", 1⟩]))
  have hwritten : written.Tidy := Session.tidy_ofTokens _
  have hahead : written.cursor.ahead = ⟨.identifier, "f", 1⟩ :: ⟨.punctuation, "(", 1⟩ ::
    (pair ++ [] ++ [⟨.punctuation, ")", 1⟩, ⟨.punctuation, ";", 1⟩, .eof 1]) := rfl
  obtain ⟨later, hread, -⟩ := (htexts.procedure hkind hopening hclosing rfl (by decide) hcloses
    hwritten hahead).full hwritten hahead (by decide)
  obtain ⟨later', hkept⟩ := h _ _ htexts
  have hsame := hread.symm.trans hkept
  injection hsame with hprocedure
  injection hprocedure with _ hvalues
  exact absurd (received_eq_self_iff.mp hvalues _ rfl) (by decide)

end Parser

end SinFrontend
