import SinFrontend.Proofs.Descent

/-!
# Expressions at the end of input

At the end of input the cursor stays, and the token that was read last is handed out once more. So
an expression that is asked for there is read from that token: what comes of it depends on this
token alone, and nothing of the session changes.

* `Token.repeated`: what comes of an expression that begins with a token of which nothing follows.
* `typeNameRule_atEnd`: a word that is read again is a type only if it is one by itself.
* `expression_atEnd`: at the end of input, an expression is what the token read last says. The end
  of input is reported exactly where nothing has been read at all.
-/

namespace SinFrontend

/-- The words that are a type by themselves. -/
def PrimaryKind.wholeTypeWords : List String :=
  ["int", "bool", "string", "char", "float", "raw", "void"]

/-- What an expression is that begins with a token when nothing follows the token, on a line. A
    token that opens an operand is asked for that operand again and again. -/
def Token.repeated (token : Token) (line : ℕ) : Except Failure Expression :=
  let rejected (cause : Cause) (line : ℕ) : Except Failure Expression :=
    .error (.rejected ⟨cause, line⟩)
  if token.opensOperand then .error .unfinished
  else
    match token.kind with
    | .eof => rejected .unexpectedEndOfInput token.line
    | .identifier => .ok (.identifier token.text false)
    | .operator => rejected (.invalidUnaryOperator token.text) token.line
    | .punctuation => rejected (.invalidToken token.text) token.line
    | .int => .ok (.ofLiteral .int token.text)
    | .float => .ok (.ofLiteral .float token.text)
    | .str => .ok (.ofLiteral .string token.text)
    | .char => .ok (.ofLiteral .char token.text)
    | .bool => .ok (.ofLiteral .bool token.text)
    | .keyword =>
      match Attribute.ofWord? token.text with
      | some attr => .ok (.attributeName attr .empty false)
      | none =>
        if token.text == "construct" then
          rejected (.missingGroupingSymbol Grouping.brace.opening "to begin construction") line
        else if PrimaryKind.wholeTypeWords.contains token.text then
          .ok (.typeName (.ofKind (.ofName token.text) .empty) false)
        else rejected (.unexpectedKeyword token.text) token.line

namespace Parser

variable {α : Type} {s : Session} {context : Context}

/-- A run that ends as it is said beforehand, and where it began. -/
def ended (outcome : Except Failure α) (s : Session) : EStateM.Result Failure Session α :=
  match outcome with
  | .ok a => .ok a s
  | .error failure => .error failure s

/-! ## Words that are read again -/

/-- The word of a quality is no type. -/
theorem ofName_of_ofWord? {text : String} {quality : Quality}
    (h : Quality.ofWord? text = some quality) : PrimaryKind.ofName text = .struct := by
  obtain rfl : quality.word = text := by simpa using List.find?_some h
  cases quality <;> rfl

/-- No word that is a type by itself names a struct. -/
theorem ofName_ne_struct {text : String} (h : text ∈ PrimaryKind.wholeTypeWords) :
    PrimaryKind.ofName text ≠ .struct := by
  have hwords : ∀ word ∈ PrimaryKind.wholeTypeWords, PrimaryKind.ofName word ≠ .struct := by
    decide
  exact hwords text h

/-- A word of a type that takes no brackets and names no struct is a type by itself. -/
theorem mem_wholeTypeWords {text : String} (htype : PrimaryKind.isTypeKeyword text = true)
    (hbracket : text ∉ ["ptr", "array", "tuple"]) (hstruct : PrimaryKind.ofName text ≠ .struct) :
    text ∈ PrimaryKind.wholeTypeWords := by
  have htypes : ∀ word ∈ PrimaryKind.typeKeywords, word ∉ ["ptr", "array", "tuple"] →
      PrimaryKind.ofName word ≠ .struct → word ∈ PrimaryKind.wholeTypeWords := by decide
  exact htypes text (List.contains_iff_mem.mp htype) hbracket hstruct

/-- A first quality never conflicts. -/
theorem exists_add_empty (quality : Quality) :
    ∃ grown, QualitySet.empty.add quality = .ok grown := by
  cases quality <;> exact ⟨_, rfl⟩

section

variable {last : Token} (hend : s.atEnd = true) (hprevious : s.cursor.previous = last)
  (hkind : last.kind = .keyword)

include hend hprevious hkind

/-- The reserved word that was read last stands in front of the end of input. -/
theorem retreat_atEnd : ∃ passed,
    s.on .retreat = { s with cursor := ⟨passed, last, s.cursor.ahead⟩ } ∧
      s.cursor.passed = last :: passed := by
  obtain ⟨⟨passed, current, rest⟩, diagnostics, start⟩ := s
  have heof : current.kind = .eof := by simpa [Session.atEnd, Cursor.atEnd] using hend
  cases passed with
  | nil =>
    obtain rfl : current = last := hprevious
    simp [heof] at hkind
  | cons first passed =>
    obtain rfl : first = last := hprevious
    exact ⟨passed, rfl, rfl⟩

theorem advance_retreat_atEnd : (s.on .retreat).on .advance = s := by
  obtain ⟨passed, hretreat, hpassed⟩ := retreat_atEnd hend hprevious hkind
  obtain ⟨⟨_, current, rest⟩, diagnostics, start⟩ := s
  obtain rfl : _ = last :: passed := hpassed
  rw [hretreat]
  simp [Session.on, Cursor.advance, Cursor.atEnd, Cursor.ahead, hkind]

theorem ahead_retreat_atEnd : (s.on .retreat).cursor.ahead = last :: s.cursor.ahead := by
  obtain ⟨passed, hretreat, -⟩ := retreat_atEnd hend hprevious hkind
  rw [hretreat]
  rfl

/-- A word that begins a type is left; any other one must be a quality. -/
theorem prefixedQualities_atEnd :
    (PrimaryKind.isTypeKeyword last.text = true ∧
      prefixedQualities (s.on .retreat) = .ok .empty (s.on .retreat)) ∨
    (PrimaryKind.ofName last.text = .struct ∧
      ∃ qualities, prefixedQualities (s.on .retreat) = .ok qualities s) ∨
    PrimaryKind.isTypeKeyword last.text = false ∧
      ∃ error, prefixedQualities (s.on .retreat) = .error (.rejected error) s := by
  have hadvance := advance_retreat_atEnd hend hprevious hkind
  have heof : s.cursor.current.kind = .eof := by simpa [Session.atEnd, Cursor.atEnd] using hend
  have hrun : prefixedQualities (s.on .retreat) =
      ((last :: s.cursor.ahead).takeWhile fun token =>
        token.kind == .keyword && !PrimaryKind.isTypeKeyword token.text).foldlM
        (fun qualities _ => addQuality qualities) QualitySet.empty (s.on .retreat) := by
    rw [← ahead_retreat_atEnd hend hprevious hkind]
    rfl
  rw [hrun, List.takeWhile_cons, Cursor.ahead, List.takeWhile_cons, hkind, heof]
  cases htype : PrimaryKind.isTypeKeyword last.text with
  | true => exact .inl ⟨rfl, rfl⟩
  | false =>
    refine .inr ?_
    rcases qualityOf_run last s with ⟨quality, hword, hquality⟩ | ⟨error, herror⟩
    · obtain ⟨grown, hgrown⟩ := exists_add_empty quality
      refine .inl ⟨ofName_of_ofWord? hword, grown, ?_⟩
      simp [addQuality, hadvance, hprevious, hquality, hgrown]
    · refine .inr ⟨rfl, error, ?_⟩
      simp [addQuality, hadvance, hprevious, herror]

end

/-- A type in brackets needs an opening one. -/
theorem typeFrom_bracket_atEnd (parse : Descent) (hend : s.atEnd = true) {text : String}
    (htext : text ∈ ["ptr", "array", "tuple"]) (qualities : QualitySet) (line : ℕ) :
    ∃ error, typeFrom parse qualities ⟨.keyword, text, line⟩ s = .error (.rejected error) s := by
  have heof : s.cursor.current.kind = .eof := by simpa [Session.atEnd, Cursor.atEnd] using hend
  have hangle : s.cursor.current.isOperator "<" = false := hasForm_eof heof (by decide)
  have hopening (rule : String) :
      expectOpeningAngle rule line s = .error (.rejected ⟨.invalidTypeSyntax rule, line⟩) s := by
    simp [expectOpeningAngle, hangle]
  simp only [List.mem_cons, List.not_mem_nil, or_false] at htext
  rcases htext with rfl | rfl | rfl
  · change ∃ error, indirectType parse (.pointerTo · qualities) line s =
      .error (.rejected error) s
    rw [indirectType, bind_run, hopening]
    exact ⟨_, rfl⟩
  · change ∃ error, arrayType parse qualities line s = .error (.rejected error) s
    rw [arrayType, bind_run, hopening]
    exact ⟨_, rfl⟩
  · change ∃ error, tupleType parse qualities line s = .error (.rejected error) s
    rw [tupleType, bind_run, hopening]
    exact ⟨_, rfl⟩

/-- Without an opening bracket behind it, a word of a type is a type only if it is one alone. -/
theorem typeFrom_atEnd (parse : Descent) (hend : s.atEnd = true) {word : Token}
    (hkind : word.kind = .keyword) (qualities : QualitySet)
    (htype : PrimaryKind.isTypeKeyword word.text = true ∨
      PrimaryKind.ofName word.text = .struct) :
    (PrimaryKind.wholeTypeWords.contains word.text = true ∧
      typeFrom parse qualities word s = .ok (.ofKind (.ofName word.text) qualities) s) ∨
    PrimaryKind.wholeTypeWords.contains word.text = false ∧
      ∃ error, typeFrom parse qualities word s = .error (.rejected error) s := by
  obtain ⟨kind, text, line⟩ := word
  obtain rfl : kind = .keyword := hkind
  by_cases hbracket : text ∈ ["ptr", "array", "tuple"]
  · refine .inr ⟨?_, typeFrom_bracket_atEnd parse hend hbracket qualities line⟩
    have hpart : ∀ word ∈ ["ptr", "array", "tuple"],
        PrimaryKind.wholeTypeWords.contains word = false := by decide
    exact hpart text hbracket
  · have hsimple : typeFrom parse qualities ⟨.keyword, text, line⟩ s =
        simpleType ⟨.keyword, text, line⟩ qualities s := by
      simp only [List.mem_cons, List.not_mem_nil, or_false, not_or] at hbracket
      simp [typeFrom, hbracket]
    rw [hsimple]
    by_cases hstruct : PrimaryKind.ofName text = .struct
    · refine .inr ⟨?_, ⟨.invalidTypeSpecifier text, line⟩, by simp [simpleType, hstruct]⟩
      rw [List.contains_eq_mem, decide_eq_false_iff_not]
      exact fun hmem => ofName_ne_struct hmem hstruct
    · refine .inl ⟨List.contains_iff_mem.mpr
        (mem_wholeTypeWords (htype.resolve_right hstruct) hbracket hstruct), ?_⟩
      unfold simpleType
      cases hname : PrimaryKind.ofName text with
      | struct => exact absurd hname hstruct
      | _ => simp

theorem noteVainQualities_whole {text : String}
    (htext : PrimaryKind.wholeTypeWords.contains text = true) (line : ℕ) :
    noteVainQualities (.ofKind (.ofName text) .empty) line s = .ok () s := by
  simp only [PrimaryKind.wholeTypeWords, List.contains_eq_mem, List.mem_cons, List.not_mem_nil,
    or_false, decide_eq_true_eq] at htext
  rcases htext with rfl | rfl | rfl | rfl | rfl | rfl | rfl <;> rfl

/-- A word that is read again is a type if it is one alone, and otherwise nothing. -/
theorem typeNameRule_atEnd (parse : Descent) {last : Token} (hend : s.atEnd = true)
    (hprevious : s.cursor.previous = last) (hkind : last.kind = .keyword) :
    (PrimaryKind.wholeTypeWords.contains last.text = true ∧
      typeNameRule parse (s.on .retreat) = .ok (.ofKind (.ofName last.text) .empty) s) ∨
    PrimaryKind.wholeTypeWords.contains last.text = false ∧
      ∃ error, typeNameRule parse (s.on .retreat) = .error (.rejected error) s := by
  have hback := advance_retreat_atEnd hend hprevious hkind
  unfold typeNameRule
  simp only [bind_run, currentLine_run]
  rcases prefixedQualities_atEnd hend hprevious hkind with
    ⟨htype, hleft⟩ | ⟨hstruct, qualities, hread⟩ | ⟨hother, error, hfails⟩
  · rcases typeFrom_atEnd parse hend hkind .empty (.inl htype) with
      ⟨hwhole, hrun⟩ | ⟨hpart, error, hrun⟩
    · refine .inl ⟨hwhole, ?_⟩
      simp [hleft, hback, hprevious, hrun, noteVainQualities_whole hwhole]
    · refine .inr ⟨hpart, error, ?_⟩
      simp [hleft, hback, hprevious, hrun]
  · rcases typeFrom_atEnd parse hend hkind qualities (.inr hstruct) with
      ⟨hwhole, -⟩ | ⟨hpart, error, hrun⟩
    · exact absurd hstruct (ofName_ne_struct (by simpa using hwhole))
    · refine .inr ⟨hpart, error, ?_⟩
      simp [hread, Session.on_advance_of_atEnd hend, hprevious, hrun]
  · refine .inr ⟨?_, error, ?_⟩
    · rw [List.contains_eq_mem, decide_eq_false_iff_not]
      intro hwhole
      have htypes : ∀ word ∈ PrimaryKind.wholeTypeWords,
          PrimaryKind.isTypeKeyword word = true := by decide
      rw [htypes _ hwhole] at hother
      cases hother
    · simp [hfails]

/-! ## Operands that are read again -/

theorem keywordOperand_atEnd (steps : ℕ) {last : Token} (hend : s.atEnd = true)
    (hprevious : s.cursor.previous = last) (hkind : last.kind = .keyword)
    (hopens : last.opensOperand = false) :
    keywordOperand (descend (steps + 1)) context last s =
      ended (last.repeated s.cursor.current.line) s := by
  have heof : s.cursor.current.kind = .eof := by simpa [Session.atEnd, Cursor.atEnd] using hend
  have hnot : (last.text == Operator.not.symbol) = false := by
    simpa [Token.opensOperand, hkind] using hopens
  simp only [keywordOperand, hnot, Bool.false_eq_true, if_false, Token.repeated, hopens, hkind]
  cases Attribute.ofWord? last.text with
  | some attr => rfl
  | none =>
    cases hconstruct : last.text == "construct" with
    | true =>
      have hbrace : s.cursor.current.isPunctuation Grouping.brace.opening = false :=
        hasForm_eof heof (by decide)
      simp [constructedType, heof, construction, expectPunctuation, hbrace, ended]
    | false =>
      rcases typeNameRule_atEnd (descend steps) hend hprevious hkind with
        ⟨hwhole, hrun⟩ | ⟨hpart, error, hrun⟩
      · have hread : descend (steps + 1) .typeName (s.on .retreat) =
            .ok (.ofKind (.ofName last.text) .empty) s := hrun
        rw [if_pos hwhole]
        simp [explaining_run, hread, ended]
      · have hfails : descend (steps + 1) .typeName (s.on .retreat) =
            .error (.rejected error) s := hrun
        have hnone : last.text ∉ PrimaryKind.wholeTypeWords := by simpa using hpart
        simp [explaining_run, hfails, hnone, ended]

/-- An operand at the end of input is the token that was read last, if that opens none. -/
theorem operand_atEnd (steps : ℕ) {last : Token} (hend : s.atEnd = true)
    (hprevious : s.cursor.previous = last) (hopens : last.opensOperand = false) :
    operand (descend (steps + 1)) context last s =
      ended ((last.repeated s.cursor.current.line).map (·, false)) s := by
  unfold operand
  cases hkind : last.kind with
  | keyword =>
    simp only [bind_run, keywordOperand_atEnd steps hend hprevious hkind hopens]
    cases last.repeated s.cursor.current.line <;> rfl
  | operator =>
    have hopens' := hopens
    simp only [Token.opensOperand, hkind, Bool.or_eq_false_iff, Option.isSome_eq_false_iff,
      Option.isNone_iff_eq_none] at hopens'
    simp [Token.repeated, hopens, hkind, operatorOperand, hopens', ended, Except.map]
  | punctuation =>
    have hopens' := hopens
    simp only [Token.opensOperand, hkind, Option.isSome_eq_false_iff,
      Option.isNone_iff_eq_none] at hopens'
    simp [Token.repeated, hopens, hkind, hopens', ended, Except.map]
  | _ => simp [Token.repeated, hopens, hkind, ended, Except.map]

/-- What is read again is constant if it is a literal. -/
theorem setConst_repeated {token : Token} {line : ℕ} {e : Expression}
    (h : token.repeated line = .ok e) (hliteral : e.isLiteral = true) : e.setConst true = e := by
  unfold Token.repeated at h
  split at h
  · cases h
  · cases hkind : token.kind with
    | identifier =>
      rw [hkind] at h
      cases h
      cases hliteral
    | keyword =>
      simp only [hkind] at h
      split at h
      · cases h
        cases hliteral
      · split at h
        · cases h
        · split at h
          · cases h
            cases hliteral
          · cases h
    | _ =>
      rw [hkind] at h
      cases h
      try rfl

theorem continueOperand_atEnd (steps : ℕ) (hend : s.atEnd = true) {e : Expression}
    (hconst : e.isLiteral = true → e.setConst true = e) :
    continueOperand (descend (steps + 1)) context false (e, false) s = .ok e s := by
  have heof : s.cursor.current.kind = .eof := by simpa [Session.atEnd, Cursor.atEnd] using hend
  have hmark : s.cursor.current.isOperator "&" = false := hasForm_eof heof (by decide)
  have hassign : s.cursor.current.operator? = none := by rw [Token.operator?, heof]
  have hread : descend (steps + 1) (.operations e context.floor context) s = .ok e s :=
    operationsRule_of_stops (.ends (by simp [endsExpression, heof])) _ e
  have he : (if e.isLiteral = true then e.setConst true else e) = e := by
    split
    · exact hconst ‹_›
    · rfl
  simp [continueOperand, atAssignment, markedOperand, atPostfixedMark, hmark, hassign, he, hread]

/-- The end of input is reported for an end of input only. -/
theorem kind_of_repeated {token : Token} {line line' : ℕ}
    (h : token.repeated line = .error (.rejected ⟨.unexpectedEndOfInput, line'⟩)) :
    token.kind = .eof := by
  unfold Token.repeated at h
  split at h
  · cases h
  · cases hkind : token.kind with
    | eof => rfl
    | keyword =>
      simp only [hkind] at h
      split at h
      · cases h
      · split at h
        · cases h
        · split at h <;> cases h
    | _ =>
      rw [hkind] at h
      cases h

theorem repeated_eof {token : Token} (hkind : token.kind = .eof) (line : ℕ) :
    token.repeated line = .error (.rejected ⟨.unexpectedEndOfInput, token.line⟩) := by
  simp [Token.repeated, Token.opensOperand, hkind]

/-- At the end of input, an expression is what the token that was read last says. -/
theorem descend_expression_repeated (hend : s.atEnd = true) (context : Context) (steps : ℕ) :
    descend (steps + 3) (.expression context) s =
      ended (s.cursor.previous.repeated s.cursor.current.line) s := by
  have heof : s.cursor.current.kind = .eof := by simpa [Session.atEnd, Cursor.atEnd] using hend
  cases hopens : s.cursor.previous.opensOperand with
  | true =>
    rw [descend_expression_unfinished hend hopens, Token.repeated, if_pos hopens]
    rfl
  | false =>
    have hword : s.cursor.current.isKeyword "constexpr" = false := hasForm_eof heof (by decide)
    show expressionRule (descend (steps + 2)) context s = _
    simp only [expressionRule, bind_run, takeKeyword_run, hword, Bool.false_eq_true, if_false,
      advance_run, Session.on_advance_of_atEnd hend,
      operand_atEnd (steps + 1) hend rfl hopens]
    cases hrepeated : s.cursor.previous.repeated s.cursor.current.line with
    | ok e => exact continueOperand_atEnd (steps + 1) hend (setConst_repeated hrepeated)
    | error failure => rfl

/-! ## Main result -/

theorem expression_repeated (hend : s.atEnd = true) (context : Context) :
    expression context s = ended (s.cursor.previous.repeated s.cursor.current.line) s := by
  obtain ⟨steps, hsteps⟩ : ∃ steps, stepsFor s.cursor = steps + 3 :=
    ⟨stepsFor s.cursor - 3, by unfold stepsFor; omega⟩
  show descend (stepsFor s.cursor) (.expression context) s = _
  rw [hsteps, descend_expression_repeated hend]

/-- At the end of input, an expression is what the token that was read last says, and nothing
    changes. The end of input is reported exactly where nothing has been read. -/
theorem expression_atEnd (hs : s.Tidy) (hend : s.atEnd = true) (context : Context) :
    expression context s = ended (s.cursor.previous.repeated s.cursor.current.line) s ∧
    (s.cursor.passed = [] →
      expression context s =
        .error (.rejected ⟨.unexpectedEndOfInput, s.cursor.current.line⟩) s) ∧
    ∀ line later, expression context s = .error (.rejected ⟨.unexpectedEndOfInput, line⟩) later →
      s.cursor.passed = [] := by
  have hrun := expression_repeated hend context
  refine ⟨hrun, fun hnone => ?_, fun line later hrejected => ?_⟩
  · have heof : s.cursor.current.kind = .eof := by simpa [Session.atEnd, Cursor.atEnd] using hend
    have hprevious : s.cursor.previous = s.cursor.current := by simp [Cursor.previous, hnone]
    rw [hrun, hprevious, repeated_eof heof]
    rfl
  · rw [hrun] at hrejected
    have hrepeated : s.cursor.previous.repeated s.cursor.current.line =
        .error (.rejected ⟨.unexpectedEndOfInput, line⟩) := by
      cases houtcome : s.cursor.previous.repeated s.cursor.current.line with
      | ok e =>
        rw [houtcome] at hrejected
        cases hrejected
      | error failure =>
        rw [houtcome] at hrejected
        cases hrejected
        rfl
    have hkind := kind_of_repeated hrepeated
    -- Nothing that has been read is an end of input.
    cases hpassed : s.cursor.passed with
    | nil => rfl
    | cons last passed =>
      have hprevious : s.cursor.previous = last := by simp [Cursor.previous, hpassed]
      exact absurd (hprevious ▸ hkind) (hs.passed last (by simp [hpassed]))

/-- In a text without tokens the end of input is reported. In the text `x` the name is read, and
    behind it, at the end of input, it is read once more. -/
theorem expression_atEnd_name :
    ((Session.ofTokens []).Tidy ∧ (Session.ofTokens []).atEnd = true ∧
      (Session.ofTokens []).cursor.passed = [] ∧
      expression {} (.ofTokens []) =
        .error (.rejected ⟨.unexpectedEndOfInput, 1⟩) (.ofTokens [])) ∧
    let name := Session.ofTokens [⟨.identifier, "x", 1⟩]
    let behind := name.on .advance
    expression {} name = .ok (.identifier "x" false) behind ∧
      behind.Tidy ∧ behind.atEnd = true ∧ behind.cursor.previous = ⟨.identifier, "x", 1⟩ ∧
      expression {} behind = .ok (.identifier "x" false) behind := by
  have hnone := Session.tidy_ofTokens []
  refine ⟨⟨hnone, rfl, rfl, (expression_atEnd hnone rfl {}).2.1 rfl⟩, ?_⟩
  intro name behind
  have hbehind : behind.Tidy := Session.tidy_advance (Session.tidy_ofTokens _)
  exact ⟨rfl, hbehind, rfl, rfl, (expression_atEnd hbehind rfl {}).1⟩

/-- Behind the only name of a text no operand is left, but the name is read once more. -/
theorem not_unexpectedEndOfInput_repeated :
    ¬ ∀ s : Session, s.Tidy → s.atEnd = true → ∀ context : Context,
      ∃ line later, expression context s =
        .error (.rejected ⟨.unexpectedEndOfInput, line⟩) later := by
  intro h
  let behind : Session := (Session.ofTokens [⟨.identifier, "x", 1⟩]).on .advance
  have htidy : behind.Tidy := Session.tidy_advance (Session.tidy_ofTokens _)
  obtain ⟨line, later, hrejected⟩ := h behind htidy rfl {}
  have hread : expression {} behind = .ok (.identifier "x" false) behind :=
    expression_repeated rfl {}
  rw [hread] at hrejected
  cases hrejected

end Parser

end SinFrontend
