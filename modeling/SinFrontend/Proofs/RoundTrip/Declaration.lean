import SinFrontend.Proofs.Printing.Sentence
import SinFrontend.Proofs.RoundTrip.TypeTerm

/-!
# Printed declarations are read back

A declaration is read up to the mark that ends it: a semicolon, or, in a list of parameters, a comma
or the closing parenthesis. Declarations of functions have parameters, which are declarations again.

* `takes_declaration`: every well-formed declaration is read back.
* `takes_formalParameters`: so is every list of parameters with its closing parenthesis.
-/

namespace SinFrontend.Parser

variable {tokens rest : List Token} {next : Token}

/-! ## The end of a simple statement -/

/-- A token that ends a simple statement. -/
def EndsStatement (next : Token) : Prop :=
  next.isPunctuation ";" = true ∨ next.isPunctuation "," = true ∨ next.isPunctuation ")" = true

theorem EndsStatement.kind (h : EndsStatement next) : next.kind = .punctuation := by
  rcases h with h | h | h <;> exact kind_of_isPunctuation h

theorem EndsStatement.paren (h : EndsStatement next) : next.isPunctuation "(" = false := by
  rcases h with h | h | h <;> exact isPunctuation_of_ne h (by decide)

theorem EndsStatement.isOperator (h : EndsStatement next) (symbol : String) :
    next.isOperator symbol = false := by
  simp [Token.isOperator, Token.hasForm, h.kind]

theorem EndsStatement.endsQualities (h : EndsStatement next) : EndsQualities next :=
  ⟨h.isOperator "&", by simp [h.kind]⟩

theorem EndsStatement.closes (h : EndsStatement next) (rest : List Token) :
    Closes {} 0 next rest := by
  refine ⟨by simp [Unmarked, h.isOperator], .inl ?_⟩
  rcases h with h | h | h <;> simp [endsExpression, Grouping.closing, h]

theorem expectStatementEnd_run (h : EndsStatement next) (base : Session) (passed : List Token) :
    expectStatementEnd (base.between passed (next :: rest)) =
      .ok () (base.between passed (next :: rest)) := by
  rcases h with h | h | h <;> simp [expectStatementEnd, h]

/-! ## Values -/

/-- A printed expression is read back in front of anything that ends it. -/
theorem reads_value {value : Term} (hspells : Spells (value.print {}) tokens)
    (hcloses : Closes {} 0 next rest) (base : Session) (passed : List Token) :
    Reads (.expression {}) (base.between passed (tokens ++ next :: rest)) value.tree
      (base.between (tokens.reverse ++ passed) (next :: rest)) :=
  reads_print le_rfl value hspells rfl rfl (fun h => by cases h) hcloses

/-- What stands behind the name in a declaration or an allocation ends the qualities of the
    name. -/
theorem spells_printValue {value : Option Term} (hspells : Spells (printValue value) tokens)
    (hnext : EndsStatement next) (rest : List Token) :
    ∃ second more, tokens ++ next :: rest = second :: more ∧ EndsQualities second ∧
      second.isPunctuation "(" = false := by
  cases value with
  | none =>
    obtain rfl := spells_nil_iff.mp hspells
    exact ⟨next, rest, rfl, hnext.endsQualities, hnext.paren⟩
  | some value =>
    obtain ⟨line, more, -, rfl⟩ := spells_operator_iff.mp hspells
    exact ⟨_, more ++ next :: rest, rfl, ⟨rfl, by simp [Operator.token, Pattern.operator,
      Token.isReserved, Token.keywords, Operator.symbol]⟩, rfl⟩

theorem takes_declaredValue {isParameter : Bool} {value : Option Term}
    (hallowed : value.isSome = true → isParameter = true)
    (hspells : Spells (printValue value) tokens) (hnext : EndsStatement next) (rest : List Token) :
    Takes (fun parse => declaredValue parse isParameter) tokens (next :: rest)
      (value.map Term.tree) := by
  intro base passed
  refine ⟨base, ?_⟩
  cases value with
  | none =>
    obtain rfl := spells_nil_iff.mp hspells
    refine .of_forall fun steps => ?_
    simp [declaredValue, hnext.isOperator]
  | some value =>
    obtain ⟨line, more, hvalue, rfl⟩ := spells_operator_iff.mp hspells
    obtain rfl := hallowed rfl
    have hcolon : (Operator.attributeSelection.token line).isOperator ":" = true := rfl
    filter_upwards [reads_value hvalue (hnext.closes rest) base
      (Operator.attributeSelection.token line :: passed)] with steps h₁
    simp [declaredValue, hcolon, Operator.token_kind_ne_eof, h₁]

/-! ## Parameters -/

/-- The text of a declaration is read back, as a parameter or as a statement. -/
def ReadsDeclaration (isParameter : Bool) (declared : DeclarationTerm) : Prop :=
  ∀ ⦃tokens : List Token⦄ ⦃next : Token⦄, Spells declared.print tokens → EndsStatement next →
    ∀ rest, Takes (fun parse => parse (.statement isParameter)) tokens (next :: rest)
      (some declared.tree)

theorem isDeclaration_tree (declared : DeclarationTerm) : declared.tree.isDeclaration = true := by
  cases declared <;> rfl

theorem DeclarationTerm.spells_head {declared : DeclarationTerm}
    (hspells : Spells declared.print tokens) :
    ∃ line more, tokens = ⟨.keyword, "decl", line⟩ :: more := by
  cases declared <;> obtain ⟨more, -, rfl⟩ := spells_wordOn_iff.mp hspells <;> exact ⟨_, more, rfl⟩

/-- Parameters up to the closing parenthesis. The induction is on the parameters behind the first
    one, each of which has a comma before it. -/
theorem takes_parameters {first : DeclarationTerm} {more : List DeclarationTerm}
    (hfirst : ReadsDeclaration true first) (hmore : ∀ param ∈ more, ReadsDeclaration true param)
    (hspells : Spells (first.print ++ DeclarationTerm.printFurther more) tokens)
    (hclosing : next.isPunctuation ")" = true) :
    Takes (fun parse => parse .parameters) tokens (next :: rest)
      (first.tree :: DeclarationTerm.trees more) := by
  have hcomma : next.isPunctuation "," = false := isPunctuation_of_ne hclosing (by decide)
  induction more generalizing first tokens with
  | nil =>
    obtain ⟨front, back, hfront, hback, rfl⟩ := spells_append_iff.mp hspells
    obtain rfl := spells_nil_iff.mp hback
    obtain ⟨line, others, rfl⟩ := DeclarationTerm.spells_head hfront
    refine .of_rule fun base passed => ?_
    obtain ⟨base', hparam⟩ := hfirst hfront (.inr (.inr hclosing)) rest base passed
    have hend : Reads .parameters (base'.between
        ((⟨.keyword, "decl", line⟩ :: others).reverse ++ passed) (next :: rest)) [] (base'.between
        ((⟨.keyword, "decl", line⟩ :: others).reverse ++ passed) (next :: rest)) := by
      refine Reads.of_rule (.of_forall fun steps => ?_)
      show parametersRule (descend steps) _ = _
      simp [parametersRule, hclosing]
    refine ⟨base', ?_⟩
    filter_upwards [hparam, hend] with steps h₁ h₂
    show parametersRule (descend steps) _ = _
    simp only [List.append_nil, List.cons_append, List.reverse_cons, List.append_assoc,
      List.nil_append] at h₁ h₂ ⊢
    simp [parametersRule, h₁, isDeclaration_tree, hcomma, hclosing, h₂, DeclarationTerm.trees]
  | cons second more ih =>
    obtain ⟨front, back, hfront, hback, rfl⟩ := spells_append_iff.mp hspells
    obtain ⟨line', params, hparams, rfl⟩ := spells_mark_iff.mp hback
    obtain ⟨line, others, rfl⟩ := DeclarationTerm.spells_head hfront
    refine .of_rule fun base passed => ?_
    obtain ⟨base', hparam⟩ := hfirst hfront
      (show EndsStatement ⟨.punctuation, ",", line'⟩ from .inr (.inl rfl)) (params ++ next :: rest)
      base passed
    obtain ⟨base'', hothers⟩ := ih (hmore second List.mem_cons_self)
      (fun param hmem => hmore param (List.mem_cons_of_mem _ hmem)) hparams base'
      (⟨.punctuation, ",", line'⟩ :: ((⟨.keyword, "decl", line⟩ :: others).reverse ++ passed))
    refine ⟨base'', ?_⟩
    filter_upwards [hparam, hothers] with steps h₁ h₂
    show parametersRule (descend steps) _ = _
    simp only [List.cons_append, List.append_assoc, List.reverse_cons, List.reverse_append,
      List.nil_append] at h₁ h₂ ⊢
    simp [parametersRule, h₁, isDeclaration_tree, h₂, DeclarationTerm.trees]

/-- Parameters and their closing parenthesis. -/
theorem takes_formalParameters {params : List DeclarationTerm}
    (hparams : ∀ param ∈ params, ReadsDeclaration true param)
    (hspells : Spells (DeclarationTerm.printFirst params ++ [.mark ")"]) tokens) (next : Token)
    (rest : List Token) :
    Takes formalParameters tokens (next :: rest) (DeclarationTerm.trees params) := by
  obtain ⟨line, inside, hinside, rfl⟩ := spells_concat_mark_iff.mp hspells
  suffices h : Takes (fun parse => parse .parameters) inside
      (⟨.punctuation, ")", line⟩ :: next :: rest) (DeclarationTerm.trees params) by
    intro base passed
    obtain ⟨base', hread⟩ := h base passed
    refine ⟨base', ?_⟩
    filter_upwards [hread] with steps h₁
    simp [formalParameters, h₁]
  cases params with
  | nil =>
    obtain rfl := spells_nil_iff.mp hinside
    refine .of_rule fun base passed => ⟨base, .of_forall fun steps => ?_⟩
    show parametersRule (descend steps) _ = _
    simp [parametersRule, DeclarationTerm.trees]
  | cons first more =>
    exact takes_parameters (hparams first List.mem_cons_self)
      (fun param hmem => hparams param (List.mem_cons_of_mem _ hmem)) hinside rfl

/-! ## Declarations -/

/-- A statement that begins with a reserved word is read as the rule of the word reads it. -/
theorem takes_keywordStatement {word : String} {line : ℕ} {isParameter : Bool}
    {statement : Option Statement}
    (h : Takes (fun parse => keywordStatement parse isParameter ⟨.keyword, word, line⟩) tokens
      (next :: rest) statement) :
    Takes (fun parse => parse (.statement isParameter)) (⟨.keyword, word, line⟩ :: tokens)
      (next :: rest) statement := by
  refine .of_rule fun base passed => ?_
  obtain ⟨base', hread⟩ := h base (⟨.keyword, word, line⟩ :: passed)
  refine ⟨base', ?_⟩
  filter_upwards [hread] with steps h₁
  show statementRule (descend steps) isParameter _ = _
  simp [statementRule, h₁]

theorem takes_structDeclaration (line : ℕ) {name : String}
    (hspells : Spells [.word "struct", .identifier name] tokens) (hnext : EndsStatement next)
    (isParameter : Bool) :
    Takes (fun parse => declaration parse line isParameter) tokens (next :: rest)
      ⟨.declaration (.structNamed name .empty) name none false true [], line⟩ := by
  obtain ⟨line', more, hmore, rfl⟩ := spells_word_iff.mp hspells
  obtain ⟨line'', nothing, hnothing, rfl⟩ := spells_identifier_iff.mp hmore
  obtain rfl := spells_nil_iff.mp hnothing
  intro base passed
  refine ⟨base, .of_forall fun steps => ?_⟩
  simp [declaration, structDeclaration, structName, expectStatementEnd_run hnext]

theorem takes_declaration_of_typed {line : ℕ} {isParameter : Bool} {text : List Pattern}
    {statement : Statement} (hbegins : BeginsWithWord text) (hspells : Spells text tokens)
    (h : Takes (fun parse => typedDeclaration parse line isParameter) tokens (next :: rest)
      statement) :
    Takes (fun parse => declaration parse line isParameter) tokens (next :: rest) statement := by
  obtain ⟨first, more, rfl, -, hstruct⟩ := hbegins.spells hspells
  intro base passed
  obtain ⟨base', hread⟩ := h base passed
  refine ⟨base', ?_⟩
  filter_upwards [hread] with steps h₁
  rw [← h₁]
  simp [declaration, hstruct]

theorem expectTypeStart_run {text : List Pattern} (hbegins : BeginsWithWord text)
    (hspells : Spells text tokens) (line : ℕ) (base : Session) (passed ahead : List Token) :
    expectTypeStart line (base.between passed (tokens ++ ahead)) =
      .ok () (base.between passed (tokens ++ ahead)) := by
  obtain ⟨first, more, rfl, hword, -⟩ := hbegins.spells hspells
  simp [expectTypeStart, hword]

theorem takes_variableDeclaration (line : ℕ) {typed : TypedName} {value : Option Term}
    {isParameter : Bool} (hwf : typed.WellFormed)
    (hallowed : value.isSome = true → isParameter = true)
    (hspells : Spells (typed.print ++ printValue value) tokens) (hnext : EndsStatement next) :
    Takes (fun parse => typedDeclaration parse line isParameter) tokens (next :: rest)
      ⟨.declaration typed.tree typed.name (value.map Term.tree) false false [], line⟩ := by
  have hbegins := expectTypeStart_run ((beginsWithWord_typedName typed).append _) hspells line
  obtain ⟨front, back, hfront, hback, rfl⟩ := spells_append_iff.mp hspells
  obtain ⟨second, more, hahead, hsecond, hparen⟩ := spells_printValue hback hnext rest
  intro base passed
  obtain ⟨base', htyped⟩ := takes_typedName hwf hfront hsecond "after type in declaration"
    more base passed
  obtain ⟨base'', hvalue⟩ := takes_declaredValue hallowed hback hnext rest base'
    (front.reverse ++ passed)
  refine ⟨base'', ?_⟩
  rw [hahead] at hvalue
  filter_upwards [htyped, hvalue] with steps h₁ h₂
  have hstart := hbegins base passed (next :: rest)
  simp only [List.append_assoc, hahead, List.reverse_append] at hstart h₁ h₂ ⊢
  simp [typedDeclaration, hstart, h₁, hparen, h₂, expectStatementEnd_run hnext]

theorem takes_functionDeclaration (line : ℕ) {typed : TypedName} {params : List DeclarationTerm}
    {isParameter : Bool} (hwf : typed.WellFormed)
    (hparams : ∀ param ∈ params, ReadsDeclaration true param)
    (hspells : Spells (typed.print ++ .mark "(" ::
      (DeclarationTerm.printFirst params ++ [.mark ")"])) tokens) (hnext : EndsStatement next) :
    Takes (fun parse => typedDeclaration parse line isParameter) tokens (next :: rest)
      ⟨.declaration typed.tree typed.name none true false (DeclarationTerm.trees params), line⟩ := by
  have hbegins := expectTypeStart_run ((beginsWithWord_typedName typed).append _) hspells line
  obtain ⟨front, back, hfront, hback, rfl⟩ := spells_append_iff.mp hspells
  obtain ⟨line', more, hmore, rfl⟩ := spells_mark_iff.mp hback
  intro base passed
  obtain ⟨base', htyped⟩ := takes_typedName hwf hfront (endsQualities_mark "(" line')
    "after type in declaration" (more ++ next :: rest) base passed
  obtain ⟨base'', hread⟩ := takes_formalParameters hparams hmore next rest base'
    (⟨.punctuation, "(", line'⟩ :: (front.reverse ++ passed))
  refine ⟨base'', ?_⟩
  filter_upwards [htyped, hread] with steps h₁ h₂
  have hstart := hbegins base passed (next :: rest)
  simp only [List.append_assoc, List.cons_append, List.reverse_append, List.reverse_cons,
    List.nil_append] at hstart h₁ h₂ ⊢
  simp [typedDeclaration, hstart, h₁, h₂, expectStatementEnd_run hnext]

/-! ## All declarations -/

mutual

/-- Every well-formed declaration is read back. -/
theorem takes_declaration : ∀ (isParameter : Bool) (declared : DeclarationTerm),
    declared.WellFormed isParameter → ReadsDeclaration isParameter declared
  | isParameter, .variable line typed value, hwf => by
    intro tokens next hspells hnext rest
    obtain ⟨more, hmore, rfl⟩ := spells_wordOn_iff.mp hspells
    refine takes_keywordStatement (Takes.map some ?_)
    refine takes_declaration_of_typed ((beginsWithWord_typedName typed).append _) hmore ?_
    exact takes_variableDeclaration line hwf.1 hwf.2 hmore hnext
  | isParameter, .function line typed params, hwf => by
    intro tokens next hspells hnext rest
    obtain ⟨more, hmore, rfl⟩ := spells_wordOn_iff.mp hspells
    refine takes_keywordStatement (Takes.map some ?_)
    refine takes_declaration_of_typed ((beginsWithWord_typedName typed).append _) hmore ?_
    exact takes_functionDeclaration line hwf.1 (takes_params params hwf.2) hmore hnext
  | isParameter, .struct line name, _ => by
    intro tokens next hspells hnext rest
    obtain ⟨more, hmore, rfl⟩ := spells_wordOn_iff.mp hspells
    exact takes_keywordStatement (Takes.map some
      (takes_structDeclaration line hmore hnext isParameter))

theorem takes_params : ∀ params : List DeclarationTerm, DeclarationTerm.AllWellFormed params →
    ∀ param ∈ params, ReadsDeclaration true param
  | [], _ => fun _ hmem => by cases hmem
  | first :: more, hwf => by
    intro param hmem
    have hfirst := takes_declaration true first hwf.1
    have hmore := takes_params more hwf.2
    rcases List.mem_cons.mp hmem with rfl | hmem
    · exact hfirst
    · exact hmore param hmem

end

end SinFrontend.Parser
