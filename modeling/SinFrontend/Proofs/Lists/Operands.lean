import SinFrontend.Proofs.Groups
import SinFrontend.Proofs.Lists.Roles
import SinFrontend.Proofs.Onward.Statements
import SinFrontend.Proofs.Trees.Statements

/-!
# Lists as operands

Behind a list no operation is read, so that it is no left operand. But only a list that has just
been read is known to be one. A list in further parentheses is not, nor is a list that has become
the right operand of an operator. Where neither is written, no operand of a binary operator is a
list, however deep it stands.

* `Expression.hasListOperand`: whether an operand of a binary operator is a list.
* `Session.Yields`: an expression that has been read, and what it being a list tells of its tokens.
* `Parser.group_yields`: a group is read as a list only if its tokens are those of a list.
* `Parser.operation_yields`: no operator makes a list, or takes one.
* `unlisted_of_expression`: no operand is a list in an expression whose tokens write none there.
-/

namespace SinFrontend

/-- Whether an operand of a binary operator is a list. -/
def Expression.hasListOperand : Expression → Bool
  | binary _ left right _ => left.isList || right.isList
  | _ => false

/-- If the node is an operation, no operand of it is a list. -/
def Node.Unlisted : Node → Prop
  | .expression e => e.hasListOperand = false
  | .type _ | .statement _ | .block _ => True

theorem Node.typesInherit_unlisted : Node.TypesInherit (fun _ => True) Node.Unlisted :=
  typesInherit_of_forall fun _ => trivial

namespace Expression

variable (expression : Expression)

@[simp] theorem isList_setConst (constant : Bool) :
    (expression.setConst constant).isList = expression.isList := by
  cases expression <;> rfl

@[simp] theorem isList_overrideQualities (qualities : QualitySet) :
    (expression.overrideQualities qualities).1.isList = expression.isList := by
  cases expression <;> rfl

theorem hasListOperand_setConst (constant : Bool) :
    (expression.setConst constant).hasListOperand = expression.hasListOperand := by
  cases expression <;> rfl

theorem hasListOperand_overrideQualities (qualities : QualitySet) :
    (expression.overrideQualities qualities).1.hasListOperand = expression.hasListOperand := by
  cases expression <;> rfl

/-- An expression that may be an operand: it is no list, and none is an operand in it. -/
structure IsOperand : Prop where
  throughout : expression.Throughout Node.Unlisted
  isList : expression.isList = false

theorem isOperand_ofLiteral (kind : PrimaryKind) (value : String) :
    (ofLiteral kind value).IsOperand :=
  ⟨.intro rfl (List.forall_mem_singleton.mpr
    (Parser.throughout_ofKind Node.typesInherit_unlisted trivial)), rfl⟩

end Expression

/-! ## Readings -/

namespace Session

variable {s later : Session}

/-- An operand has been read, together with a mark that tells whether it is a list. Lists are groups
    whose tokens are those of a list, and outside of these there is no comma. -/
structure YieldsOperand (s : Session) (operand : Expression × Bool) (later : Session) : Prop where
  spans : s.Spans (operand.2 = true) later
  throughout : operand.1.Throughout Node.Unlisted
  isList : operand.1.isList = operand.2
  group : operand.2 = true →
    s.cursor.current.role = .opens ∧ isListGroup (s.on .advance).roles = true

/-- An expression has been read. If it is a list, a list is what its tokens begin with. -/
structure Yields (s : Session) (expression : Expression) (later : Session) : Prop where
  spans : s.Spans (expression.isList = true) later
  throughout : expression.Throughout Node.Unlisted
  begins : expression.isList = true → beginsWithList s.roles = true

theorem YieldsOperand.of_isOperand {operand : Expression} (h : operand.IsOperand)
    (hspans : s.Spans False later) : s.YieldsOperand (operand, false) later :=
  ⟨hspans.mono Bool.false_ne_true, h.throughout, h.isList, nofun⟩

theorem YieldsOperand.yields {expression : Expression} {isList : Bool}
    (h : s.YieldsOperand (expression, isList) later) (hs : s.Tidy) :
    s.Yields expression later where
  spans := h.spans.mono h.isList.symm.trans
  throughout := h.throughout
  begins hlist := by
    obtain ⟨hopens, hgroup⟩ := h.group (h.isList.symm.trans hlist)
    rw [roles_advance hs (Token.ne_eof_of_role hopens nofun), hopens]
    exact hgroup

/-- What stands alone in a group is no list. It would be one at the beginning of a group that is
    none, since no comma stands between a list and the closing symbol. -/
theorem Yields.isList_eq_false {first : Expression} (h : (s.on .advance).Yields first later)
    (hs : s.Tidy) (apart : s.Apart) (hopens : s.cursor.current.role = .opens)
    (hcloses : later.cursor.current.role = .closes) : first.isList = false := by
  rw [Bool.eq_false_iff]
  intro hlist
  have hbegins := h.begins hlist
  have hseparated := separated_of_isListGroup hbegins (apart.group hs hopens hbegins)
  have hbefore := h.spans.level hlist hseparated
  rw [separated_of_closes hcloses] at hbefore
  cases hbefore

end Session

namespace Parser

variable {base : Session} {level : Prop}

/-! ## Steps -/

theorem Keeps.take_spans {test : Token → Bool} (h : ∀ {s : Session}, s.Tidy →
    test s.cursor.current = true → s.Spans level (s.on .advance)) :
    Keeps (base.Spans level) (Parser.take test) := by
  intro s taken later hs hrun
  rw [take_run] at hrun
  split at hrun
  next htaken =>
    cases hrun
    exact ⟨trivial, hs.trans (h hs.tidy htaken)⟩
  next =>
    cases hrun
    exact ⟨trivial, hs⟩

theorem Keeps.takeKeyword_spans {word : String} (h : word ≠ "[") :
    Keeps (base.Spans level) (takeKeyword word) :=
  .take_spans fun hs htaken => .advance hs (Token.isPlain_of_hasForm htaken (by decide) h)

theorem Keeps.takeComma_spans : Keeps (base.Spans False) (takePunctuation ",") :=
  .take_spans fun hs htaken => .comma hs (Token.role_of_comma htaken)

section

variable (apart : base.Apart)

include apart

theorem makes_addQuality_spans {set : QualitySet} (hset : set.Grown) :
    Makes (base.Spans level) QualitySet.Grown (addQuality set) := by
  intro s grown later hs hrun
  obtain ⟨quality, hword, hadded, rfl⟩ := addQuality_ok hrun
  have hread : s.Spans level (s.on .advance) :=
    (hs.apart apart).spans_advance hs.tidy fun _ => Token.isPlain_of_ofWord? hword
  exact ⟨.add hset hadded, hs.trans hread⟩

theorem stepsKeep_spans : StepsKeep (base.Spans False) (fun _ => True) where
  quality := makes_addQuality_spans apart
  operator hmem := .take_spans fun hs htaken => .advance hs
    (Token.isPlain_of_hasForm htaken (by decide) (by rintro rfl; simp at hmem))
  comma := .takeComma_spans
  closing := by
    intro s _ later hs hrun
    obtain ⟨hclosing, rfl | ⟨_, _, htext, hseveral, rfl⟩⟩ := expectClosingAngle_ok hrun
    · have hplain : s.cursor.current.role.isPlain = true := by
        rw [Token.role_of_isClosingAngle hclosing]
        rfl
      exact ⟨trivial, hs.trans (.advance hs.tidy hplain)⟩
    · exact ⟨trivial, hs.trans (.split hs.tidy hclosing htext hseveral)⟩
  head accepts made := by
    intro s type later hs hrun
    rw [bind_run, advance_run] at hrun
    have hread : s.Spans False (s.on .advance) :=
      (hs.apart apart).spans_advance hs.tidy (Token.isPlain_of_isWord (accepts hrun))
    exact made _ trivial (hs.trans hread) hrun
  note _ := by
    rintro s _ _ hs ⟨⟩
    exact ⟨trivial, hs.record _⟩

/-- The name of a constructed type is a word. -/
theorem Keeps.constructedType_spans : Keeps (base.Spans level) Parser.constructedType := by
  intro s explicitType later hs hrun
  rw [Parser.constructedType, bind_run, peek_run] at hrun
  dsimp only at hrun
  rw [ite_run] at hrun
  split at hrun
  next hword =>
    cases hrun
    have hplain := Token.isPlain_of_isWord (by simpa using hword)
      (hs.apart apart).role_ne_ambiguous
    exact ⟨trivial, hs.trans (.advance hs.tidy hplain)⟩
  next =>
    cases hrun
    exact ⟨trivial, hs⟩

end

/-! ## Readings that a rule asks for -/

/-- Readings in whose trees no operand is a list, unless one is where they begin. An operator takes
    no list if its left operand is none. -/
structure YieldsAll (parse : Descent) : Prop where
  parts {base : Session} (apart : base.Apart) : MakesParts (base.Spans False) Node.Unlisted parse
  expression (context : Context) {s later : Session} {expression : Expression} (hs : s.Tidy)
    (apart : s.Apart) (hrun : parse (.expression context) s = .ok expression later) :
    s.Yields expression later
  operations (left : Expression) (floor : ℕ) (context : Context) {base : Session}
    (apart : base.Apart) : Makes (base.Spans False)
      (fun result => left.IsOperand → result.IsOperand) (parse (.operations left floor context))

section

variable {parse : Descent} (yields : YieldsAll parse)

include yields

/-! ## Groups -/

/-- A group is read as a list only if its tokens are those of a list. -/
theorem group_yields {opened : Grouping} {s later : Session} {operand : Expression × Bool}
    (hs : s.Tidy) (apart : s.Apart) (hopens : s.cursor.current.role = .opens)
    (hrun : group parse opened (s.on .advance) = .ok operand later) :
    s.YieldsOperand operand later := by
  have hinside : (s.on .advance).Tidy := Session.tidy_advance hs
  cases groupRead_of_ok hrun with
  | empty kind hcloses =>
    have hcloses := Token.role_of_closing hcloses
    exact
      { spans := .enclose hs hopens (.refl hinside) hcloses
        throughout := .intro rfl fun _ hpart => absurd hpart List.not_mem_nil
        isList := rfl
        group := fun _ => ⟨hopens, Session.isListGroup_of_closes hcloses⟩ }
  | single hfirst hcloses =>
    have hyields := yields.expression _ hinside apart.advance hfirst
    have hcloses := Token.role_of_closing hcloses
    exact .of_isOperand ⟨hyields.throughout, hyields.isList_eq_false hs apart hopens hcloses⟩
      (.enclose hs hopens (hyields.spans.mono False.elim) hcloses)
  | list kind hfirst hcomma helements hcloses =>
    have hyields := yields.expression _ hinside apart.advance hfirst
    have hfirst := hyields.spans.mono False.elim
    obtain ⟨hgood, hlast⟩ := (yields.parts apart.advance).elements _ hfirst helements
    have hseparated := hfirst.outside (Session.separated_of_comma (Token.role_of_comma hcomma))
    exact
      { spans := .enclose hs hopens hlast (Token.role_of_closing hcloses)
        throughout := .intro rfl (List.forall_mem_map.mpr
          (List.forall_mem_cons.mpr ⟨hyields.throughout, hgood⟩))
        isList := rfl
        group := fun _ => ⟨hopens, isListGroup_of_separated hseparated⟩ }

theorem construction_yields {explicitType : Option String} {s later : Session}
    {result : Expression} (hs : s.Tidy) (apart : s.Apart)
    (hrun : construction parse explicitType s = .ok result later) :
    s.Spans False later ∧ result.IsOperand := by
  obtain ⟨_, _, hread, hrun⟩ := exists_of_bind hrun
  obtain ⟨hopening, rfl⟩ := expectPunctuation_ok hread
  have hopens : s.cursor.current.role = .opens :=
    Token.role_of_opening (kind_of_isPunctuation hopening)
      (by rw [text_of_isPunctuation hopening]; rfl : _ = some Grouping.brace)
  obtain ⟨initializers, middle, hinitializers, hrun⟩ := exists_of_bind hrun
  obtain ⟨hgood, hmiddle⟩ := (yields.parts apart.advance).initializers
    (.refl (Session.tidy_advance hs)) hinitializers
  have hparts : ∀ part ∈ initializers.flatMap Initializer.parts, part.Everywhere Node.Unlisted :=
    fun part hpart => by
      obtain ⟨initializer, hmem, hpart⟩ := List.mem_flatMap.mp hpart
      exact hgood initializer hmem part hpart
  -- Whatever stands in front of the closing brace is read with the braces around it.
  have hclose {last : Session} (hlast : (s.on .advance).Spans False last) (hasDefault : Bool)
      (hrun : (do
        expectPunctuation Grouping.brace.closing "to close construction"
        return Expression.construction explicitType initializers hasDefault
          (initializers.all (·.value.isConst))) last = .ok result later) :
      s.Spans False later ∧ result.IsOperand := by
    obtain ⟨_, _, hread, hrun⟩ := exists_of_bind hrun
    obtain ⟨hclosing, rfl⟩ := expectPunctuation_ok hread
    cases hrun
    exact ⟨.enclose hs hopens hlast (Token.role_of_closing hclosing), .intro rfl hparts, rfl⟩
  obtain ⟨hasDefault, _, hdefault, hrun⟩ := exists_of_bind hrun
  have hmiddle := (Keeps.takeKeyword_spans (by decide) hmiddle hdefault).2
  rw [ite_run] at hrun
  split at hrun
  · obtain ⟨_, _, hread, hrun⟩ := exists_of_bind hrun
    have hcomma : Keeps ((s.on .advance).Spans False) (discard (takePunctuation ",")) :=
      Keeps.takeComma_spans.map fun _ _ => trivial
    exact hclose (hcomma hmiddle hread).2 _ hrun
  · exact hclose hmiddle _ hrun

/-! ## Operands -/

section

variable (apart : base.Apart)

include apart

theorem makes_unary_spans (context : Context) (op : Operator) :
    Makes (base.Spans False) Expression.IsOperand (unary parse context op) :=
  ((yields.parts apart).expression _).bind fun _ hoperand =>
    .pure ⟨.intro rfl (List.forall_mem_singleton.mpr hoperand), rfl⟩

theorem makes_operatorOperand_spans (context : Context) (token : Token) :
    Makes (base.Spans False) Expression.IsOperand (operatorOperand parse context token) := by
  refine .ite (fun _ => ((yields.parts apart).expression _).bind fun target htarget => ?_)
    fun _ => ?_
  · split
    · exact .pure ⟨.intro rfl htarget.parts, rfl⟩
    · exact .reject
  · split
    · exact makes_unary_spans yields apart context _
    · exact .reject

end

/-- A type is read from its word on, which has been read before. -/
theorem keywordOperand_yields {context : Context} {s later : Session} {result : Expression}
    (hs : s.Tidy) (apart : s.Apart) (hpast : 0 < s.past)
    (hkind : s.cursor.previous.kind = .keyword)
    (hrun : keywordOperand parse context s.cursor.previous s = .ok result later) :
    s.Spans False later ∧ result.IsOperand := by
  unfold keywordOperand at hrun
  rw [ite_run] at hrun
  split at hrun
  · exact (makes_unary_spans yields apart context _ (.refl hs) hrun).symm
  cases hattribute : Attribute.ofWord? s.cursor.previous.text with
  | some attr =>
    rw [hattribute] at hrun
    cases hrun
    exact ⟨.refl hs, .intro rfl nofun, rfl⟩
  | none =>
    simp only [hattribute, ite_run] at hrun
    split at hrun
    · obtain ⟨explicitType, middle, hword, hrun⟩ := exists_of_bind hrun
      have hmiddle : s.Spans False middle := (Keeps.constructedType_spans apart (.refl hs) hword).2
      have hread := construction_yields yields hmiddle.tidy (hmiddle.apart apart) hrun
      exact ⟨hmiddle.trans hread.1, hread.2⟩
    · rw [bind_run, retreat_run] at hrun
      obtain ⟨type, _, htype, hrun⟩ := exists_of_bind hrun
      cases hrun
      obtain ⟨htype, hspans⟩ := (yields.parts apart.retreat).typeName
        (.refl (hs.retreat hpast).1) (run_of_explaining htype)
      have hplain := Token.isPlain_of_isWord (.inl hkind)
        (Session.on_retreat_current hpast ▸ apart.retreat.role_ne_ambiguous)
      exact ⟨hspans.of_retreat hs hpast hplain, .intro rfl
        (List.forall_mem_singleton.mpr htype), rfl⟩

omit yields in
/-- At the end of input no group is read, although the symbol that opens one is handed out. -/
theorem group_atEnd (leads : LeadsAll True parse) {opened : Grouping} {s later : Session}
    {operand : Expression × Bool} (hs : s.Tidy) (hend : s.cursor.current.kind = .eof) :
    group parse opened s ≠ .ok operand later := by
  intro hrun
  have hended : s.atEnd = true := by simp [Session.atEnd, Cursor.atEnd, hend]
  have hnone {t : Session} (ht : t.cursor.current.kind = .eof) (mark : String) :
      t.cursor.current.isPunctuation mark ≠ true := by
    simp [show t.cursor.current.isPunctuation mark = false from hasForm_eof ht (by decide)]
  have hstays {context : Context} {first : Expression} {middle : Session}
      (hfirst : parse (.expression context) s = .ok first middle) :
      middle.cursor.current.kind = .eof := by
    have honward := ((leads.expression _ hs).of_ok hfirst).1
    rw [Session.on_advance_of_atEnd hended] at honward
    simpa [Session.atEnd, Cursor.atEnd] using honward.atEnd hended
  cases groupRead_of_ok hrun with
  | empty kind hcloses => exact hnone hend _ hcloses
  | single hfirst hcloses => exact hnone (hstays hfirst) _ hcloses
  | list kind hfirst hcomma => exact hnone (hstays hfirst) _ hcomma

/-- An operand is a list only if it is a group that is one. -/
theorem operand_yields (leads : LeadsAll True parse) {context : Context} {s later : Session}
    {read : Expression × Bool} (hs : s.Tidy) (apart : s.Apart)
    (hrun : operand parse context (s.on .advance).cursor.previous (s.on .advance) =
      .ok read later) : s.YieldsOperand read later := by
  have hadvance : (s.on .advance).Tidy := Session.tidy_advance hs
  unfold operand at hrun
  cases hkind : (s.on .advance).cursor.previous.kind with
  | eof =>
    rw [hkind] at hrun
    cases hrun
  | identifier =>
    rw [hkind] at hrun
    cases hrun
    exact .of_isOperand ⟨.intro rfl nofun, rfl⟩ (apart.spans_advance hs
      (Token.isPlain_of_isWord (.inr hkind)))
  | keyword =>
    rw [hkind] at hrun
    obtain ⟨expression, _, hword, hrun⟩ := exists_of_bind hrun
    cases hrun
    have hpast := hs.past_pos_of_advance (by simp [hkind])
    obtain ⟨hspans, hoperand⟩ :=
      keywordOperand_yields yields hadvance apart.advance hpast hkind hword
    exact .of_isOperand hoperand
      ((apart.spans_advance hs (Token.isPlain_of_isWord (.inl hkind))).trans hspans)
  | operator =>
    rw [hkind] at hrun
    obtain ⟨expression, _, hoperator, hrun⟩ := exists_of_bind hrun
    cases hrun
    have hplain : (s.on .advance).cursor.previous.role.isPlain = true := by
      refine Token.isPlain_of_kind (by simp [hkind]) (Token.operator?_ne_index fun htext => ?_)
      rw [operatorOperand, htext] at hoperator
      cases hoperator
    obtain ⟨hgood, hspans⟩ := makes_operatorOperand_spans yields apart.advance context _
      (.refl hadvance) hoperator
    exact .of_isOperand hgood ((apart.spans_advance hs fun _ => hplain).trans hspans)
  | punctuation =>
    cases hopened : Grouping.ofOpening? (s.on .advance).cursor.previous.text with
    | some opened =>
      simp only [hkind, hopened] at hrun
      by_cases hend : s.cursor.current.kind = .eof
      · rw [Session.on_advance_of_atEnd (by simp [Session.atEnd, Cursor.atEnd, hend])] at hrun
        exact absurd hrun (group_atEnd leads hs hend)
      · rw [hs.advance_previous hend] at hkind hopened
        exact group_yields yields hs apart (Token.role_of_opening hkind hopened) hrun
    | none =>
      simp only [hkind, hopened] at hrun
      cases hrun
  | _ =>
    rw [hkind] at hrun
    cases hrun
    exact .of_isOperand (Expression.isOperand_ofLiteral _ _) (apart.spans_advance hs fun _ =>
      Token.isPlain_of_operator?_none (by simp [hkind]) (by simp [Token.operator?, hkind]))

/-! ## Marks behind an operand -/

omit yields in
theorem makes_overrideQualities_spans (apart : base.Apart) {operand : Expression}
    (hoperand : operand.Throughout Node.Unlisted) :
    Makes (base.Spans level) (fun layered => layered.Throughout Node.Unlisted ∧
      layered.isList = operand.isList) (overrideQualities operand) := by
  refine Keeps.currentLine.bind fun _ _ => ?_
  refine (makes_postfixedQualities (makes_addQuality_spans apart)).explaining.bind
    fun qualities hgrown => ?_
  split
  next layered hadded =>
    have hlayered : layered = (operand.overrideQualities qualities).1 := by rw [hadded]
    have here : layered.hasListOperand = false := by
      rw [hlayered, operand.hasListOperand_overrideQualities]
      exact hoperand.here
    refine .pure ⟨throughout_overridden Node.typesInherit_unlisted hoperand hgrown hadded here, ?_⟩
    rw [hlayered, operand.isList_overrideQualities]
  · exact .reject
  · exact .reject

omit yields in
theorem makes_markedOperand_spans (apart : base.Apart) {operand : Expression}
    (hoperand : operand.Throughout Node.Unlisted) :
    Makes (base.Spans level) (fun marked => marked.1.Throughout Node.Unlisted ∧
      marked.1.isList = operand.isList) (markedOperand operand) := by
  have hbehind : Makes (base.Spans level) (fun marked => marked.1.Throughout Node.Unlisted ∧
      marked.1.isList = operand.isList) (do
        if ← takeKeyword "constexpr" then return (operand, true)
        else return (← overrideQualities operand, false)) := by
    refine (Keeps.takeKeyword_spans (by decide)).bind fun _ _ =>
      .ite (fun _ => .pure ⟨hoperand, rfl⟩) fun _ => ?_
    exact (makes_overrideQualities_spans apart hoperand).bind fun _ hlayered => .pure hlayered
  intro s marked later hs hrun
  obtain ⟨atMark, _, hmark, hrun⟩ := exists_of_bind hrun
  simp only [atPostfixedMark, bind_run, peek_run, keywordFollows_run, pure_run] at hmark
  cases hmark
  rw [ite_run] at hrun
  split at hrun
  next hmark =>
    have hamp : s.cursor.current.isOperator "&" = true := (Bool.and_eq_true_iff.mp hmark).1
    have hplain := Token.isPlain_of_hasForm hamp (by decide) (by decide)
    exact hbehind (hs.trans (.advance hs.tidy hplain)) hrun
  next =>
    cases hrun
    exact ⟨⟨hoperand, rfl⟩, hs⟩

/-! ## Expressions -/

/-- Nothing is read behind a list, and whatever is read behind another operand makes none. -/
theorem makes_continueOperand_spans (apart : base.Apart) (context : Context) (marked : Bool)
    {operand : Expression} {isList : Bool} (hoperand : operand.Throughout Node.Unlisted)
    (hlist : operand.isList = isList) :
    Makes (base.Spans (isList = true)) (fun result => result.Throughout Node.Unlisted ∧
      result.isList = isList) (continueOperand parse context marked (operand, isList)) := by
  refine (makes_markedOperand_spans apart hoperand).bind fun behind hbehind => ?_
  rw [hlist] at hbehind
  have hconstant : (if marked || behind.2 || behind.1.isLiteral then behind.1.setConst true
      else behind.1).Throughout Node.Unlisted ∧
      (if marked || behind.2 || behind.1.isLiteral then behind.1.setConst true
      else behind.1).isList = isList := by
    split
    · refine ⟨hbehind.1.of_parts ?_ (behind.1.parts_setConst true), by simp [hbehind.2]⟩
      exact (behind.1.hasListOperand_setConst true).trans hbehind.1.here
    · exact hbehind
  refine .ite (fun _ => .pure hconstant) fun hother => ?_
  obtain rfl : isList = false := by simp_all
  unfold atAssignment
  simp only [bind_assoc, pure_bind]
  refine Keeps.peek.bind fun _ _ => .ite (fun _ => .pure hconstant) fun _ => ?_
  rw [Bool.false_eq_true]
  exact (yields.operations _ _ _ apart).mono fun result hresult =>
    have hgood := hresult ⟨hconstant.1, hconstant.2⟩
    ⟨hgood.throughout, hgood.isList⟩

theorem expressionRule_yields (leads : LeadsAll True parse) (context : Context)
    {s later : Session} {expression : Expression} (hs : s.Tidy) (apart : s.Apart)
    (hrun : expressionRule parse context s = .ok expression later) :
    s.Yields expression later := by
  obtain ⟨marked, middle, hmarked, hrun⟩ := exists_of_bind hrun
  have hread {t : Session} (ht : t.Tidy) (apart : t.Apart) (hrun : (do
      continueOperand parse context marked (← operand parse context (← advance))) t =
        .ok expression later) : t.YieldsOperand (expression, expression.isList) later := by
    rw [bind_run, advance_run] at hrun
    obtain ⟨⟨read, isList⟩, last, hread, hrun⟩ := exists_of_bind hrun
    have hoperand := operand_yields yields leads ht apart hread
    obtain ⟨⟨hgood, hlist⟩, hspans⟩ := makes_continueOperand_spans yields apart context marked
      hoperand.throughout hoperand.isList hoperand.spans hrun
    rw [hlist]
    exact ⟨hspans, hgood, hlist, hoperand.group⟩
  rw [takeKeyword_run] at hmarked
  split at hmarked
  next hword =>
    cases hmarked
    have hrole := Token.role_of_constexpr hword
    have hyields := hread (Session.tidy_advance hs) apart.advance hrun
    refine ⟨.trans (.advance hs (by rw [hrole]; rfl)) hyields.spans, hyields.throughout,
      fun hlist => ?_⟩
    obtain ⟨hopens, hgroup⟩ := hyields.group hlist
    rw [Session.roles_advance hs (Token.ne_eof_of_role hrole nofun), hrole,
      Session.roles_advance (Session.tidy_advance hs) (Token.ne_eof_of_role hopens nofun), hopens]
    exact hgroup
  next =>
    cases hmarked
    exact (hread hs apart hrun).yields hs

/-! ## Operations -/

omit yields in
/-- The node of an operator is no list. Of what stands behind a `:`, only a word is kept. -/
theorem makes_combine_unlisted {inv : Session → Prop} {op : Operator} {left right : Expression}
    (hright : op ≠ .attributeSelection → right.IsOperand) (line : ℕ) :
    Makes inv (fun result => left.IsOperand → result.IsOperand) (combine op left right line) := by
  unfold combine
  split
  · split
    next type hadded =>
      refine .pure fun hleft => ⟨.intro rfl (List.forall_mem_cons.mpr
        ⟨hleft.throughout, List.forall_mem_singleton.mpr (.intro trivial ?_)⟩), rfl⟩
      have hlayered : (attributeType.addQualities _).1 = type := congrArg Prod.fst hadded
      rw [← hlayered]
      exact nofun
    · exact .reject
  · refine .pure fun hleft => ⟨.intro rfl (List.forall_mem_cons.mpr
      ⟨hleft.throughout, (hright nofun).throughout.parts⟩), rfl⟩
  · exact .reject
  · exact .reject
  next hselection _ _ _ =>
    refine .pure fun hleft => ?_
    have hoperand := hright hselection
    have here : (Expression.binary op left right (left.isConst && right.isConst)).hasListOperand
        = false := by
      simp [Expression.hasListOperand, hleft.isList, hoperand.isList]
    exact ⟨.intro here (List.forall_mem_cons.mpr
      ⟨hleft.throughout, List.forall_mem_singleton.mpr hoperand.throughout⟩), rfl⟩

theorem makes_arguments_unlisted (apart : base.Apart) (name : Expression) (context : Context) :
    Makes (base.Spans False) (fun result => name.IsOperand → result.IsOperand)
      (arguments parse name context) := by
  refine ((yields.parts apart).expression _).bind fun args hargs => ?_
  split
  · exact .pure fun hname => ⟨.intro rfl
      (List.forall_mem_cons.mpr ⟨hname.throughout, hargs.parts⟩), rfl⟩
  · exact .pure fun hname => ⟨.intro rfl (List.forall_mem_cons.mpr
      ⟨hname.throughout, List.forall_mem_singleton.mpr hargs⟩), rfl⟩

theorem index_yields {target : Expression} {s later : Session} {result : Expression}
    (hs : s.Tidy) (apart : s.Apart) (hopens : s.cursor.current.role = .opens)
    (hrun : index parse target (s.on .advance) = .ok result later) :
    s.Spans False later ∧ (target.IsOperand → result.IsOperand) := by
  obtain ⟨index, middle, hread, hrun⟩ := exists_of_bind hrun
  obtain ⟨hindex, hmiddle⟩ := (yields.parts apart.advance).expression _
    (.refl (Session.tidy_advance hs)) hread
  obtain ⟨_, _, hread, hrun⟩ := exists_of_bind hrun
  obtain ⟨hclosing, rfl⟩ := expectPunctuation_ok hread
  cases hrun
  refine ⟨.enclose hs hopens hmiddle (Token.role_of_closing hclosing), fun htarget => ?_⟩
  exact ⟨.intro rfl (List.forall_mem_cons.mpr
    ⟨htarget.throughout, List.forall_mem_singleton.mpr hindex⟩), rfl⟩

/-- No list stands directly behind an operator, so none is its right operand, and the operator
    makes none. -/
theorem operation_yields {op : Operator} {left : Expression} {context : Context}
    {s later : Session} {result : Expression} (hs : s.Tidy) (apart : s.Apart)
    (hop : s.cursor.current.operator? = some op)
    (hrun : operation parse left op context s = .ok result later) :
    s.Spans False later ∧ (left.IsOperand → result.IsOperand) := by
  by_cases hprocedure : op = .procOperator
  · subst hprocedure
    exact (makes_arguments_unlisted yields apart left context (.refl hs) hrun).symm
  by_cases hindex : op = .index
  · subst hindex
    exact index_yields yields hs apart (Token.role_of_index hop apart.role_ne_ambiguous) hrun
  · have hread : s.Spans False (s.on .advance) :=
      .advance hs (Token.isPlain_of_operator? hop hindex hprocedure)
    obtain ⟨right, middle, hfirst, hrun⟩ := exists_of_bind (show (do
      let right ← parse (.expression (context.operand op.precedence))
      let right ← parse (.operations right op.precedence context)
      combine op left right s.cursor.current.line) (s.on .advance) = .ok result later from by
        simpa [operation, hindex, hprocedure] using hrun)
    have hyields := yields.expression _ hread.tidy apart.advance hfirst
    have hfree (hselection : op ≠ .attributeSelection) : right.IsOperand := by
      refine ⟨hyields.throughout, Bool.eq_false_iff.mpr fun hlist => ?_⟩
      have hnone := apart.operator hs (Token.role_of_operator? hop hindex hprocedure hselection)
      rw [hyields.begins hlist] at hnone
      cases hnone
    obtain ⟨further, last, hmore, hrun⟩ := exists_of_bind hrun
    obtain ⟨hgood, hlast⟩ := yields.operations right op.precedence context apart
      (hread.trans (hyields.spans.mono False.elim)) hmore
    exact (makes_combine_unlisted (fun hselection => hgood (hfree hselection)) _ hlast hrun).symm

theorem makes_operationsRule_unlisted (left : Expression) (floor : ℕ) (context : Context)
    (apart : base.Apart) : Makes (base.Spans False)
      (fun result => left.IsOperand → result.IsOperand)
      (operationsRule parse left floor context) := by
  intro s result later hs hrun
  rcases operationsRule_ok hrun with ⟨rfl, rfl, -⟩ | ⟨op, combined, middle, hop, -, hread, hmore⟩
  · exact ⟨id, hs⟩
  · obtain ⟨hspans, hcombined⟩ := operation_yields yields hs.tidy (hs.apart apart) hop hread
    obtain ⟨hgood, hlater⟩ := yields.operations combined floor context apart (hs.trans hspans) hmore
    exact ⟨fun hleft => hgood (hcombined hleft), hlater⟩

/-! ## The descent -/

theorem yieldsAll_rule (leads : LeadsAll True parse) : YieldsAll (rule parse) where
  parts apart :=
    { typeName := makes_typeNameRule (stepsKeep_spans apart) Node.typesInherit_unlisted
        (yields.parts apart)
      members := makes_tupleMembers (stepsKeep_spans apart) Node.typesInherit_unlisted
        (yields.parts apart)
      expression := fun context _ _ _ hs hrun =>
        have hyields := expressionRule_yields yields leads context hs.tidy (hs.apart apart) hrun
        ⟨hyields.throughout, hs.trans (hyields.spans.mono False.elim)⟩
      elements := makes_elementsRule (stepsKeep_spans apart) (yields.parts apart)
      initializers := makes_initializersRule (stepsKeep_spans apart) (yields.parts apart) }
  expression context _ _ _ hs apart hrun :=
    expressionRule_yields yields leads context hs apart hrun
  operations left floor context _ apart :=
    makes_operationsRule_unlisted yields left floor context apart

end

theorem yieldsAll_descend (steps : ℕ) : YieldsAll (descend steps) := by
  induction steps with
  | zero =>
    exact
      { parts := fun _ => ⟨.throw _, .throw _, fun _ => .throw _, fun _ => .throw _, .throw _⟩
        expression := fun _ _ _ _ _ _ hrun => nomatch hrun
        operations := fun _ _ _ _ _ => .throw _ }
  | succ steps ih => exact yieldsAll_rule ih (descend_leadsAll steps)

end Parser

/-- No operand is a list, at any depth of an expression, unless its tokens write one directly behind
    an operator or at the beginning of a group that is no list. -/
theorem unlisted_of_expression {tokens : List Token} {context : Context} {expression : Expression}
    {later : Session} (hfree : hasListOperand (tokens.map Token.role) = false)
    (hrun : Parser.expression context (Session.ofTokens tokens) = .ok expression later) :
    expression.Throughout Node.Unlisted :=
  ((Parser.yieldsAll_descend _).expression context (Session.tidy_ofTokens tokens)
    (Session.apart_ofTokens hfree) hrun).throughout

/-- Lists as arguments, as elements of lists and as values of members, beside operators. -/
theorem unlisted_of_expression_arguments :
    ∃ tokens expression later,
      Token.ofText "f((1, 2), \x7b3, 4\x7d) + a[0] * construct P \x7b x: (5, 6) \x7d;" =
        .ok tokens ∧
      hasListOperand (tokens.map Token.role) = false ∧
      Parser.expression {} (.ofTokens tokens) = .ok expression later ∧
      expression.isList = false ∧ expression.Throughout Node.Unlisted := by
  have hreads : Parser.readsAs (Parser.expression {})
      (fun tokens expression => !hasListOperand (tokens.map Token.role) && !expression.isList)
      "f((1, 2), \x7b3, 4\x7d) + a[0] * construct P \x7b x: (5, 6) \x7d;" = true := by
    decide +kernel
  obtain ⟨tokens, expression, later, htokens, hrun, htest⟩ := Parser.exists_of_readsAs hreads
  obtain ⟨hfree, hlist⟩ : hasListOperand (tokens.map Token.role) = false ∧
      expression.isList = false := by
    simpa using htest
  exact ⟨tokens, expression, later, htokens, hfree, hrun, hlist,
    unlisted_of_expression hfree hrun⟩

/-- A list in parentheses is an operand. -/
theorem not_unlisted_of_expression :
    ∃ tokens expression later,
      Token.ofText "((1,2)) + 3;" = .ok tokens ∧
      Parser.expression {} (.ofTokens tokens) = .ok expression later ∧
      ¬ expression.Throughout Node.Unlisted := by
  have hreads : Parser.readsAs (Parser.expression {})
      (fun _ expression => expression.hasListOperand) "((1,2)) + 3;" = true := by
    decide +kernel
  obtain ⟨tokens, expression, later, htokens, hrun, hoperand⟩ := Parser.exists_of_readsAs hreads
  refine ⟨tokens, expression, later, htokens, hrun, fun hunlisted => ?_⟩
  have here : expression.hasListOperand = false := hunlisted.here
  rw [hoperand] at here
  cases here

/-- So is a list behind an operator, and then whatever binds tighter takes it as well. -/
example :
    Parser.readsAs (Parser.expression {}) (fun _ expression => expression.hasListOperand)
      "1 + (2, 3);" = true ∧
    Parser.readsAs (Parser.expression {}) (fun
        | _, .binary .plus _ right _ => right.hasListOperand
        | _, _ => false) "3 + (1, 2) * 4;" = true := by
  decide +kernel

end SinFrontend
