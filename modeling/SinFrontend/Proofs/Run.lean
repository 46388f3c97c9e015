import SinFrontend.Proofs.Session

/-!
# Running parsers

What the elementary parsers do to a session, as equations. With them a run of a larger parser is
followed step by step.
-/

namespace SinFrontend.Parser

variable {α β : Type} (session : Session)

/-! ## Sequencing -/

@[simp] theorem bind_run (p : Parser α) (f : α → Parser β) :
    (p >>= f) session =
      match p session with
      | .ok a later => f a later
      | .error e later => .error e later := by
  change EStateM.bind p f session = _
  unfold EStateM.bind
  cases p session <;> rfl

/-- A run in sequence that ends with a value ends both its parts with one. -/
theorem exists_of_bind {session later : Session} {p : Parser α} {f : α → Parser β} {b : β}
    (h : (p >>= f) session = .ok b later) :
    ∃ a middle, p session = .ok a middle ∧ f a middle = .ok b later := by
  rw [bind_run] at h
  generalize p session = x at h ⊢
  cases x with
  | ok a middle => exact ⟨a, middle, rfl, h⟩
  | error e middle => cases h

@[simp] theorem map_run (f : α → β) (p : Parser α) :
    (f <$> p) session =
      match p session with
      | .ok a later => .ok (f a) later
      | .error e later => .error e later := by
  rw [map_eq_pure_bind, bind_run]
  rfl

@[simp] theorem discard_run (p : Parser α) :
    discard p session =
      match p session with
      | .ok _ later => .ok () later
      | .error e later => .error e later := by
  show ((fun _ => ()) <$> p) session = _
  rw [map_run]

@[simp] theorem ite_run (c : Prop) [Decidable c] (p q : Parser α) :
    (if c then p else q) session = if c then p session else q session := by
  split <;> rfl

@[simp] theorem pure_run (a : α) : (pure a : Parser α) session = .ok a session := rfl

@[simp] theorem throw_run (failure : Failure) :
    (throw failure : Parser α) session = .error failure session := rfl

@[simp] theorem reject_run (cause : Cause) (line : ℕ) :
    (reject cause line : Parser α) session = .error (.rejected ⟨cause, line⟩) session := rfl

theorem explaining_run (p : Parser α) (explain : CompileError → Parser CompileError) :
    explaining p explain session =
      match p session with
      | .ok a later => .ok a later
      | .error (.rejected error) later =>
        (explain error >>= fun other => throw (.rejected other)) later
      | .error .unfinished later => .error .unfinished later := by
  change EStateM.tryCatch p _ session = _
  unfold EStateM.tryCatch
  cases p session with
  | ok a later => rfl
  | error e later => cases e <;> rfl

/-- Only an error is replaced. -/
theorem run_of_explaining {session later : Session} {p : Parser α}
    {explain : CompileError → Parser CompileError} {a : α}
    (h : explaining p explain session = .ok a later) : p session = .ok a later := by
  rw [explaining_run] at h
  cases hp : p session with
  | ok b middle =>
    rw [hp] at h
    exact h
  | error failure middle =>
    rw [hp] at h
    cases failure with
    | unfinished => cases h
    | rejected error =>
      obtain ⟨other, _, -, h⟩ := exists_of_bind h
      cases h

/-! ## Looking -/

@[simp] theorem peek_run : peek session = .ok session.cursor.current session := rfl

@[simp] theorem currentLine_run :
    currentLine session = .ok session.cursor.current.line session := rfl

@[simp] theorem previous_run : previous session = .ok session.cursor.previous session := rfl

@[simp] theorem previousLine_run :
    previousLine session = .ok session.cursor.previous.line session := rfl

@[simp] theorem atEnd_run : atEnd session = .ok session.atEnd session := rfl

@[simp] theorem atPunctuation_run (mark : String) :
    atPunctuation mark session = .ok (session.cursor.current.isPunctuation mark) session := rfl

@[simp] theorem keywordFollows_run :
    keywordFollows session =
      .ok (session.cursor.rest.head?.any (·.kind == .keyword)) session := rfl

/-! ## Moving -/

@[simp] theorem move_run (step : Cursor → Cursor) :
    move step session = .ok () (session.on step) := rfl

@[simp] theorem advance_run :
    advance session = .ok (session.on .advance).cursor.previous (session.on .advance) := rfl

@[simp] theorem retreat_run : retreat session = .ok () (session.on .retreat) := rfl

@[simp] theorem take_run (test : Token → Bool) :
    take test session =
      if test session.cursor.current then .ok true (session.on .advance)
      else .ok false session := by
  simp only [take, bind_run, peek_run]
  split <;> rfl

@[simp] theorem takePunctuation_run (mark : String) :
    takePunctuation mark session =
      if session.cursor.current.isPunctuation mark then .ok true (session.on .advance)
      else .ok false session :=
  take_run session _

@[simp] theorem takeKeyword_run (word : String) :
    takeKeyword word session =
      if session.cursor.current.isKeyword word then .ok true (session.on .advance)
      else .ok false session :=
  take_run session _

@[simp] theorem takeOperator_run (symbol : String) :
    takeOperator symbol session =
      if session.cursor.current.isOperator symbol then .ok true (session.on .advance)
      else .ok false session :=
  take_run session _

/-! ## Qualities -/

/-- A word names a quality, or is rejected. -/
theorem qualityOf_run (token : Token) (s : Session) :
    (∃ quality, Quality.ofWord? token.text = some quality ∧ qualityOf token s = .ok quality s) ∨
      ∃ error, qualityOf token s = .error (.rejected error) s := by
  unfold qualityOf
  rw [ite_run]
  split
  · exact .inr ⟨_, rfl⟩
  · cases hword : Quality.ofWord? token.text with
    | some quality => exact .inl ⟨quality, rfl, rfl⟩
    | none => exact .inr ⟨_, rfl⟩

/-- A token that is read as a quality is the word of one. -/
theorem addQuality_ok {session later : Session} {qualities grown : QualitySet}
    (h : addQuality qualities session = .ok grown later) :
    ∃ quality, Quality.ofWord? (session.on .advance).cursor.previous.text = some quality ∧
      qualities.add quality = .ok grown ∧ session.on .advance = later := by
  rw [addQuality, bind_run, advance_run] at h
  obtain ⟨quality, middle, hquality, h⟩ := exists_of_bind h
  rcases qualityOf_run (session.on .advance).cursor.previous (session.on .advance) with
    ⟨found, hword, hrun⟩ | ⟨error, hrun⟩
  · rw [hrun] at hquality
    cases hquality
    cases hadded : qualities.add quality with
    | ok set =>
      rw [hadded] at h
      cases h
      exact ⟨quality, hword, hadded, rfl⟩
    | error conflict =>
      rw [hadded] at h
      cases h
  · rw [hrun] at hquality
    cases hquality

/-! ## Groups -/

/-- A closing bracket is read, or the first one of several is taken off their token. -/
theorem expectClosingAngle_ok {session later : Session}
    (h : expectClosingAngle session = .ok () later) :
    isClosingAngle session.cursor.current = true ∧ (session.on .advance = later ∨
      ∃ c more, session.cursor.current.text.toList = c :: more ∧ more ≠ [] ∧
        session.on (·.replaceText (String.ofList more)) = later) := by
  simp only [expectClosingAngle, bind_run, peek_run, ite_run] at h
  split at h
  next hclosing =>
    refine ⟨hclosing, ?_⟩
    rcases htext : session.cursor.current.text.toList with _ | ⟨c, _ | ⟨d, ds⟩⟩ <;>
      simp only [htext, move_run] at h <;> cases h
    · exact .inl rfl
    · exact .inl rfl
    · exact .inr ⟨c, _, rfl, List.cons_ne_nil _ _, rfl⟩
  next => cases h

/-- What was demanded has been read. -/
theorem expectPunctuation_ok {session later : Session} {symbol context : String}
    (h : expectPunctuation symbol context session = .ok () later) :
    session.cursor.current.isPunctuation symbol = true ∧ session.on .advance = later := by
  cases hform : session.cursor.current.isPunctuation symbol with
  | true => exact ⟨rfl, by simpa [expectPunctuation, hform] using h⟩
  | false => simp [expectPunctuation, hform] at h

theorem listKindOf_ok {session later : Session} {opened : Grouping} {kind : ListKind}
    (h : listKindOf opened session = .ok kind later) : session = later := by
  unfold listKindOf at h
  cases hkind : opened.listKind? <;> rw [hkind] at h <;> cases h
  rfl

/-- How a group is read behind the symbol that opens it: it is empty, it holds an expression, or it
    is a list, which has a comma behind its first element. -/
inductive GroupRead (parse : Descent) (opened : Grouping) (session : Session) :
    Expression × Bool → Session → Prop where
  | empty (kind : ListKind)
    (closes : session.cursor.current.isPunctuation opened.closing = true) :
    GroupRead parse opened session (.emptyList kind, true) (session.on .advance)
  | single {value : Expression} {middle : Session}
    (reads : parse (.expression (.within opened)) session = .ok value middle)
    (closes : middle.cursor.current.isPunctuation opened.closing = true) :
    GroupRead parse opened session (value, false) (middle.on .advance)
  | list (kind : ListKind) {first : Expression} {elements : List Expression} {middle last : Session}
    (reads : parse (.expression (.within opened)) session = .ok first middle)
    (comma : middle.cursor.current.isPunctuation "," = true)
    (more : parse (.elements (.within opened)) middle = .ok elements last)
    (closes : last.cursor.current.isPunctuation opened.closing = true) :
    GroupRead parse opened session
      (.list kind (first :: elements) .empty ((first :: elements).all Expression.isConst), true)
      (last.on .advance)

theorem groupRead_of_ok {parse : Descent} {opened : Grouping} {read : Expression × Bool}
    {session later : Session} (h : group parse opened session = .ok read later) :
    GroupRead parse opened session read later := by
  rw [group, bind_run, atPunctuation_run] at h
  dsimp only at h
  rw [ite_run] at h
  split at h
  next hempty =>
    obtain ⟨kind, _, hkind, h⟩ := exists_of_bind h
    obtain rfl := listKindOf_ok hkind
    cases h
    exact .empty kind hempty
  next =>
    obtain ⟨first, middle, hfirst, h⟩ := exists_of_bind h
    rw [bind_run, atPunctuation_run] at h
    dsimp only at h
    rw [ite_run] at h
    split at h
    next hcomma =>
      obtain ⟨kind, _, hkind, h⟩ := exists_of_bind h
      obtain rfl := listKindOf_ok hkind
      obtain ⟨elements, last, helements, h⟩ := exists_of_bind h
      obtain ⟨_, _, hread, h⟩ := exists_of_bind h
      obtain ⟨hcloses, rfl⟩ := expectPunctuation_ok hread
      cases h
      exact .list kind hfirst hcomma helements hcloses
    next =>
      obtain ⟨_, _, hread, h⟩ := exists_of_bind h
      obtain ⟨hcloses, rfl⟩ := expectPunctuation_ok hread
      cases h
      exact .single hfirst hcloses

/-! ## Operations -/

/-- What is next is no further operator of the operations behind an operand: it ends the expression,
    is left to the statement around it, is the `&` of a mark, or binds no tighter than the floor. -/
inductive Stops (context : Context) (floor : ℕ) (session : Session) : Prop where
  | ends (next : endsExpression context session.cursor.current = true)
  | statement {op : Operator} (spells : session.cursor.current.operator? = some op)
      (left : isLeftToStatement context op = true)
  | mark (spells : session.cursor.current.operator? = some .bitAnd)
      (word : session.cursor.rest.head?.any (·.kind == .keyword) = true)
  | weak {op : Operator} (spells : session.cursor.current.operator? = some op)
      (binary : op.isPrefixOnly = false) (level : op.precedence ≤ floor)

/-- Where operations stop, they leave the operand as it is, whatever it is. -/
theorem operationsRule_of_stops {context : Context} {floor : ℕ} {session : Session}
    (h : Stops context floor session) (parse : Descent) (left : Expression) :
    operationsRule parse left floor context session = .ok left session := by
  by_cases hends : endsExpression context session.cursor.current = true
  · simp [operationsRule, hends]
  cases h with
  | ends next => exact absurd next hends
  | statement spells hleft => simp [operationsRule, hends, spells, hleft]
  | @weak op spells binary level =>
    by_cases hleft : isLeftToStatement context op = true
    · simp [operationsRule, hends, spells, hleft]
    · simp [operationsRule, hends, spells, hleft, binary, level]
  | mark spells word =>
    by_cases hleft : isLeftToStatement context .bitAnd = true
    · simp [operationsRule, hends, spells, hleft]
    · simp [operationsRule, hends, spells, hleft, word]

/-- Behind an operand nothing is read, or the operator that is next, and no `&` of a mark. -/
theorem operationsRule_ok {parse : Descent} {left result : Expression} {floor : ℕ}
    {context : Context} {session later : Session}
    (h : operationsRule parse left floor context session = .ok result later) :
    (left = result ∧ session = later ∧ Stops context floor later) ∨ ∃ op combined middle,
      session.cursor.current.operator? = some op ∧
      (op = .bitAnd → session.cursor.rest.head?.any (·.kind == .keyword) = false) ∧
      operation parse left op context session = .ok combined middle ∧
      parse (.operations combined floor context) middle = .ok result later := by
  have hleave (hstops : Stops context floor session)
      (h : (pure left : Parser Expression) session = .ok result later) :
      left = result ∧ session = later ∧ Stops context floor later := by
    cases h
    exact ⟨rfl, rfl, hstops⟩
  rw [operationsRule, bind_run, peek_run] at h
  dsimp only at h
  rw [ite_run] at h
  split at h
  next hends => exact .inl (hleave (.ends hends) h)
  cases hop : session.cursor.current.operator? with
  | none =>
    rw [hop] at h
    cases h
  | some op =>
    rw [hop] at h
    dsimp only at h
    rw [ite_run] at h
    split at h
    next hleft => exact .inl (hleave (.statement hop hleft) h)
    rw [bind_run, keywordFollows_run] at h
    dsimp only at h
    rw [ite_run] at h
    split at h
    next hmark =>
      rw [Bool.and_eq_true, beq_iff_eq] at hmark
      exact .inl (hleave (.mark (hmark.1 ▸ hop) hmark.2) h)
    next hmark =>
      rw [ite_run] at h
      split at h
      · cases h
      next hbinary =>
        rw [ite_run] at h
        split at h
        next hlevel => exact .inl (hleave (.weak hop (by simpa using hbinary) hlevel) h)
        obtain ⟨combined, middle, hcombined, h⟩ := exists_of_bind h
        exact .inr ⟨op, combined, middle, rfl, by rintro rfl; simpa using hmark, hcombined, h⟩

/-! ## Blocks -/

/-- The notes on the `pass` statements of a block, unless nothing else stands in it. -/
def passNotes (entries : List (Option Statement × ℕ)) : List Diagnostic :=
  if (Block.ofList (entries.filterMap (·.1))).isEmpty then []
  else ((entries.filter (·.1.isNone)).map (·.2)).map (.note passNote)

theorem forM_note_run (message : String) (lines : List ℕ) :
    (forM lines (note message) : Parser Unit) session =
      .ok () { session with
        diagnostics := session.diagnostics ++ lines.map (.note message) } := by
  induction lines generalizing session with
  | nil => simp
  | cons line lines ih =>
    rw [List.forM_cons, bind_run]
    show (forM lines (note message) : Parser Unit) { session with
      diagnostics := session.diagnostics ++ [.note message line] } = _
    rw [ih]
    simp

/-- A block is made of the statements that were read, and each `pass` beside others is noted. -/
theorem block_run {parse : Descent} {entries : List (Option Statement × ℕ)} {later : Session}
    (h : parse .statements session = .ok entries later) :
    block parse session = .ok (.ofList (entries.filterMap (·.1)))
      { later with diagnostics := later.diagnostics ++ passNotes entries } := by
  have hnotes := forM_note_run later passNote ((entries.filter (·.1.isNone)).map (·.2))
  by_cases hempty : (Block.ofList (entries.filterMap (·.1))).isEmpty = true
  · simp [block, h, hempty, passNotes]
  · simp [block, h, hempty, passNotes, hnotes, -List.forM_map, -List.map_map]

/-! ## Forms of tokens -/

variable (kind : Token.Kind) (text other : String) (line : ℕ)

@[simp] theorem hasForm_mk (other' : Token.Kind) :
    Token.hasForm ⟨kind, text, line⟩ other' other = (kind == other' && text == other) := rfl

@[simp] theorem isPunctuation_mk :
    Token.isPunctuation ⟨kind, text, line⟩ other = (kind == .punctuation && text == other) := rfl

@[simp] theorem isKeyword_mk :
    Token.isKeyword ⟨kind, text, line⟩ other = (kind == .keyword && text == other) := rfl

@[simp] theorem isOperator_mk :
    Token.isOperator ⟨kind, text, line⟩ other = (kind == .operator && text == other) := rfl

theorem kind_of_isPunctuation {token : Token} {mark : String}
    (h : token.isPunctuation mark = true) : token.kind = .punctuation := by
  simp only [Token.isPunctuation, Token.hasForm, Bool.and_eq_true, beq_iff_eq] at h
  exact h.1

theorem text_of_isPunctuation {token : Token} {mark : String}
    (h : token.isPunctuation mark = true) : token.text = mark := by
  simp only [Token.isPunctuation, Token.hasForm, Bool.and_eq_true, beq_iff_eq] at h
  exact h.2

/-- A mark is no other mark. -/
theorem isPunctuation_of_ne {token : Token} {mark other : String}
    (h : token.isPunctuation mark = true) (hne : mark ≠ other) :
    token.isPunctuation other = false := by
  simp [Token.isPunctuation, Token.hasForm, text_of_isPunctuation h, hne]

theorem kind_of_isKeyword {token : Token} {word : String} (h : token.isKeyword word = true) :
    token.kind = .keyword := by
  simp only [Token.isKeyword, Token.hasForm, Bool.and_eq_true, beq_iff_eq] at h
  exact h.1

theorem kind_of_isOperator {token : Token} {symbol : String} (h : token.isOperator symbol = true) :
    token.kind = .operator := by
  simp only [Token.isOperator, Token.hasForm, Bool.and_eq_true, beq_iff_eq] at h
  exact h.1

theorem kind_of_isClosingAngle {token : Token} (h : isClosingAngle token = true) :
    token.kind = .operator := by
  simp only [isClosingAngle, Bool.and_eq_true, beq_iff_eq] at h
  exact h.1.1

theorem hasForm_eof {token : Token} {kind : Token.Kind} {text : String}
    (h : token.kind = .eof) (hkind : kind ≠ .eof) : token.hasForm kind text = false := by
  simp [Token.hasForm, h, hkind.symm]

end SinFrontend.Parser
