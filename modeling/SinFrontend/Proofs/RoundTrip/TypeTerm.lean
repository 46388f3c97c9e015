import SinFrontend.Proofs.Printing.TypeTerm
import SinFrontend.Proofs.RoundTrip.Expression
import SinFrontend.Proofs.RoundTrip.Writing

/-!
# Printed types are read back

The text of a well-formed type is read as the type, in whatever way it is written. Reading a type
may note qualities without effect, so the session behind it differs from the one before it also in
its notes: statements here say that there is *some* base session, which is never looked at again.

* `readsType`: every well-formed type is read back, however it is written and whatever follows it.
* `takes_type`: so is the plain text of a type.
* `takes_typedName`: so is a type with a name and the qualities behind the name.
-/

namespace SinFrontend.Parser

variable {base : Session} {passed rest : List Token} {next : Token}

/-! ## Qualities -/

theorem qualityOf_word (quality : Quality) (line : ℕ) :
    qualityOf ⟨.keyword, quality.word, line⟩ = pure quality := by
  cases quality <;> rfl

theorem addQuality_word {start grown : QualitySet} {quality : Quality}
    (hadd : start.add quality = .ok grown) (line : ℕ) {ahead : List Token} (hahead : ahead ≠ []) :
    addQuality start (base.between passed (⟨.keyword, quality.word, line⟩ :: ahead)) =
      .ok grown (base.between (⟨.keyword, quality.word, line⟩ :: passed) ahead) := by
  simp [addQuality, qualityOf_word, hadd, hahead]

/-- Words of qualities are added one by one. -/
theorem addQualities_print {words : List Quality} {start set : QualitySet}
    (hadds : start.addEach words = (set, none)) {tokens : List Token}
    (hspells : Spells (words.map fun quality => .word quality.word) tokens) (passed : List Token) :
    tokens.foldlM (fun qualities _ => addQuality qualities) start
        (base.between passed (tokens ++ next :: rest)) =
      .ok set (base.between (tokens.reverse ++ passed) (next :: rest)) := by
  induction words generalizing start tokens passed with
  | nil =>
    obtain rfl := spells_nil_iff.mp hspells
    obtain rfl : start = set := by simpa [QualitySet.addEach] using hadds
    rfl
  | cons quality words ih =>
    obtain ⟨line, more, hmore, rfl⟩ := spells_word_iff.mp hspells
    rw [QualitySet.addEach] at hadds
    cases hadd : start.add quality with
    | error conflict =>
      rw [hadd] at hadds
      cases hadds
    | ok grown =>
      rw [hadd] at hadds
      have hfirst : addQuality start (base.between passed
          (⟨.keyword, quality.word, line⟩ :: (more ++ next :: rest))) = _ :=
        addQuality_word hadd line (by simp)
      have hrest := ih hadds hmore (⟨.keyword, quality.word, line⟩ :: passed)
      rw [List.foldlM_cons, bind_run, List.cons_append, hfirst]
      simp only [hrest, List.reverse_cons, List.append_assoc, List.cons_append, List.nil_append]

/-- The words ahead that satisfy a test are read as qualities, if the token behind them does not
    satisfy it. -/
theorem qualitiesWhile_print (qualities : QualityWords) {tokens : List Token}
    (hspells : Spells qualities.print tokens) (test : Token → Bool)
    (htest : ∀ (quality : Quality) line, test ⟨.keyword, quality.word, line⟩ = true)
    (hnext : test next = false) (passed : List Token) :
    qualitiesWhile test (base.between passed (tokens ++ next :: rest)) =
      .ok qualities.set (base.between (tokens.reverse ++ passed) (next :: rest)) := by
  have hall : ∀ token ∈ tokens, test token = true := by
    intro token htoken
    obtain ⟨pattern, hpattern, line, rfl, -⟩ := hspells.exists_pattern htoken
    obtain ⟨quality, -, rfl⟩ := List.mem_map.mp hpattern
    exact htest quality line
  have hahead : (base.between passed (tokens ++ next :: rest)).cursor.ahead.takeWhile test =
      tokens := by
    rw [Session.between_ahead _ _ _ (by simp), List.takeWhile_append_of_pos hall,
      List.takeWhile_cons, hnext]
    simp
  calc qualitiesWhile test (base.between passed (tokens ++ next :: rest))
      = ((base.between passed (tokens ++ next :: rest)).cursor.ahead.takeWhile test).foldlM
          (fun qualities _ => addQuality qualities) QualitySet.empty
          (base.between passed (tokens ++ next :: rest)) := rfl
    _ = tokens.foldlM (fun qualities _ => addQuality qualities) QualitySet.empty
          (base.between passed (tokens ++ next :: rest)) := by simp only [hahead]
    _ = _ := addQualities_print qualities.adds hspells passed

/-- A token behind which no qualities follow, and which does not belong to them. -/
def EndsQualities (next : Token) : Prop :=
  next.isOperator "&" = false ∧ next.kind ≠ .keyword

theorem endsQualities_mark (text : String) (line : ℕ) : EndsQualities ⟨.punctuation, text, line⟩ :=
  ⟨rfl, by simp⟩

theorem endsQualities_of_isClosingAngle {first : Token} (h : isClosingAngle first = true) :
    EndsQualities first := by
  simp only [isClosingAngle, Bool.and_eq_true, beq_iff_eq, List.all_eq_true] at h
  refine ⟨?_, by simp [h.1.1]⟩
  by_contra hand
  have htext : first.text = "&" := by
    simp only [Token.isOperator, Token.hasForm, Bool.not_eq_false, Bool.and_eq_true, beq_iff_eq] at hand
    exact hand.2
  rw [htext] at h
  exact absurd (h.2 '&' (by decide)) (by decide)

theorem addQualities_empty (type : DataType) : type.addQualities .empty = (type, none) := by
  cases type
  rfl

theorem withPostfixedQualities_print (qualities : QualityWords) {type : DataType}
    (hfits : (type.addQualities qualities.set).2 = none) {tokens : List Token}
    (hspells : Spells qualities.printBehind tokens) (hnext : EndsQualities next)
    (base : Session) (passed rest : List Token) :
    withPostfixedQualities type (base.between passed (tokens ++ next :: rest)) =
      .ok (type.addQualities qualities.set).1
        (base.between (tokens.reverse ++ passed) (next :: rest)) := by
  obtain ⟨words, set, hadds⟩ := qualities
  cases words with
  | nil =>
    obtain rfl := spells_nil_iff.mp hspells
    obtain rfl : QualitySet.empty = set := by simpa [QualitySet.addEach] using hadds
    simp [withPostfixedQualities, hnext.1, addQualities_empty]
  | cons quality words =>
    obtain ⟨line, tokens, hwords, rfl⟩ := spells_operator_iff.mp hspells
    have hset : qualitiesWhile (·.kind == .keyword)
        (base.between (Operator.bitAnd.token line :: passed) (tokens ++ next :: rest)) = _ :=
      qualitiesWhile_print ⟨quality :: words, set, hadds⟩ hwords _ (fun _ _ => rfl)
        (by simpa using hnext.2) _
    obtain ⟨line', more, hmore, rfl⟩ := spells_word_iff.mp hwords
    have hand : (Operator.bitAnd.token line).isOperator "&" = true := rfl
    obtain ⟨layered, hlayered⟩ : ∃ layered, type.addQualities set = (layered, none) :=
      ⟨_, Prod.ext rfl hfits⟩
    simp only [List.cons_append] at hset ⊢
    simp [withPostfixedQualities, hand, Operator.token_kind_ne_eof, postfixedQualities, hset,
      hlayered]

/-! ## The beginning of a type -/

/-- A text begins with a word, reserved or not, but not with the word `struct`. -/
inductive BeginsWithWord : List Pattern → Prop where
  | reserved {first : Pattern} {more : List Pattern} (kind : first.kind = .keyword)
      (text : first.text ≠ "struct") : BeginsWithWord (first :: more)
  | name {first : Pattern} {more : List Pattern} (kind : first.kind = .identifier) :
      BeginsWithWord (first :: more)

theorem beginsWithWord_print (qualities : QualityWords) {text : List Pattern}
    (h : BeginsWithWord text) : BeginsWithWord (qualities.print ++ text) := by
  obtain ⟨words, set, hadds⟩ := qualities
  cases words with
  | nil => exact h
  | cons quality words =>
    refine .reserved rfl ?_
    cases quality <;> simp [Pattern.word, Quality.word]

theorem TypeTerm.beginsWithWord (type : TypeTerm) : BeginsWithWord type.print := by
  cases type with
  | builtin qualities kind =>
    have : ∀ kind : PrimaryKind, kind ∈ [.char, .int, .float, .string, .bool, .void, .raw] →
        kind.word ≠ "struct" := by
      intro kind
      cases kind <;> decide
    exact beginsWithWord_print _ (.reserved rfl (this _ kind.property))
  | struct | reference => exact beginsWithWord_print _ (.name rfl)
  | pointer | array | tuple =>
    exact beginsWithWord_print _ (.reserved rfl (by simp [Pattern.word]))

theorem BeginsWithWord.append {text : List Pattern} (h : BeginsWithWord text)
    (more : List Pattern) : BeginsWithWord (text ++ more) := by
  cases h with
  | reserved kind text => exact .reserved kind text
  | name kind => exact .name kind

theorem ContainedTerm.beginsWithWord (contained : ContainedTerm) :
    BeginsWithWord contained.print := by
  obtain ⟨type, qualities⟩ := contained
  exact (TypeTerm.beginsWithWord type).append _

theorem BeginsWithWord.head? {text : List Pattern} (h : BeginsWithWord text) :
    ∃ first, text.head? = some first ∧
      (first.kind == .keyword || first.kind == .identifier) = true := by
  cases h with
  | reserved kind => exact ⟨_, rfl, by simp [kind]⟩
  | name kind => exact ⟨_, rfl, by simp [kind]⟩

theorem BeginsWithWord.spells {text : List Pattern} (h : BeginsWithWord text)
    {tokens : List Token} (hspells : Spells text tokens) :
    ∃ first more, tokens = first :: more ∧ (first.kind = .keyword ∨ first.kind = .identifier) ∧
      first.isKeyword "struct" = false := by
  cases h with
  | reserved kind text =>
    obtain ⟨line, more, -, -, rfl⟩ := spells_cons_iff.mp hspells
    exact ⟨_, more, rfl, .inl kind, by simp [text]⟩
  | name kind =>
    obtain ⟨line, more, -, -, rfl⟩ := spells_cons_iff.mp hspells
    exact ⟨_, more, rfl, .inr kind, by simp [kind]⟩

/-! ## Types -/

variable {At : Script}

/-- What may follow a type in angle brackets. -/
def EndsContained (more : List Pattern) : Prop :=
  ∃ next after, more = next :: after ∧ (next = .mark "," ∨ next = .operator .greater)

/-- A type is read back, whatever follows it. -/
def ReadsType (At : Script) (type : TypeTerm) : Prop :=
  ∀ more, TakesText At (fun parse => parse .typeName) type.print more type.tree

/-- A contained type is read back, if no qualities follow it. -/
def ReadsContained (At : Script) (contained : ContainedTerm) : Prop :=
  ∀ more, EndsContained more → TakesText At containedType contained.print more contained.tree

/-! ### Around the word of a type -/

theorem greater_notMem_print (qualities : QualityWords) :
    .operator .greater ∉ qualities.print := by
  intro hmem
  obtain ⟨quality, -, hquality⟩ := List.mem_map.mp hmem
  cases quality <;> exact absurd hquality (by decide)

theorem greater_notMem_printBehind (qualities : QualityWords) :
    .operator .greater ∉ qualities.printBehind := by
  unfold QualityWords.printBehind
  split
  · simp
  · rw [List.mem_cons, not_or]
    exact ⟨by decide, greater_notMem_print qualities⟩

theorem noteVainQualities_run (type : DataType) (line : ℕ) (base : Session)
    (passed ahead : List Token) :
    ∃ base' : Session, noteVainQualities type line (base.between passed ahead) =
      .ok () (base'.between passed ahead) := by
  have hnotes : ∀ (qualities : List Quality) (base : Session), ∃ base' : Session,
      (qualities.forM fun quality =>
        note s!"Quality '{quality.word}' has no effect on type '{type.kind.word}'" line)
        (base.between passed ahead) = .ok () (base'.between passed ahead) := by
    intro qualities
    induction qualities with
    | nil => exact fun base => ⟨base, rfl⟩
    | cons quality qualities ih =>
      intro base
      obtain ⟨base', hbase'⟩ := ih { base with diagnostics := base.diagnostics ++ [.note
        s!"Quality '{quality.word}' has no effect on type '{type.kind.word}'" line] }
      exact ⟨base', hbase'⟩
  obtain ⟨base', hbase'⟩ := hnotes (type.qualities.listed.filter type.ignoresQuality) base
  by_cases hhalf : type.isHalfPrecision = true
  · refine ⟨{ base' with diagnostics := base'.diagnostics ++ [.warning
      "16-bit half-precision floats are not supported; 'short float' is single precision"
      line 3] }, ?_⟩
    simp only [noteVainQualities, bind_run, hbase', if_pos hhalf]
    rfl
  · refine ⟨base', ?_⟩
    simp only [noteVainQualities, bind_run, hbase', if_neg hhalf]
    rfl

theorem takesText_noteVainQualities (type : DataType) (line : ℕ) (more : List Pattern) :
    TakesText At (fun _ => noteVainQualities type line) [] more () := by
  intro base passed ahead hat
  obtain ⟨base', hnotes⟩ := noteVainQualities_run type line base passed ahead
  exact ⟨base', passed, ahead, hat, .of_forall fun _ => hnotes⟩

/-- A pattern that begins a type behind its qualities. -/
def BeginsType (pattern : Pattern) : Prop :=
  pattern.kind = .keyword ∧ PrimaryKind.isTypeKeyword pattern.text = true ∨
    pattern.kind = .identifier

theorem takesText_prefixedQualities (hw : Writing At) (qualities : QualityWords) {word : Pattern}
    (hword : BeginsType word) (more : List Pattern) :
    TakesText At (fun _ => prefixedQualities) qualities.print (word :: more) qualities.set := by
  intro base passed ahead hat
  obtain ⟨tokens, rest, hspells, rfl, hrest⟩ := hw.splits (greater_notMem_print qualities) hat
  have hgreater : word ≠ .operator .greater := by
    rintro rfl
    rcases hword with ⟨hkind, -⟩ | hkind <;> exact absurd hkind (by decide)
  obtain ⟨token, others, ⟨line, rfl, -⟩, rfl, -⟩ := hw.token hgreater hrest
  refine ⟨base, _, _, hrest, .of_forall fun steps => ?_⟩
  refine qualitiesWhile_print qualities hspells _ (fun quality line => ?_) ?_ passed
  · cases quality <;> rfl
  · rcases hword with ⟨hkind, htype⟩ | hkind
    · simp [hkind, htype]
    · simp [hkind]

/-- A type is taken as what stands behind its word is, with the qualities before it. -/
theorem takesText_typeName (hw : Writing At) (qualities : QualityWords) {word : Pattern}
    {text more : List Pattern} {type : DataType} (hword : BeginsType word)
    (htype : ∀ line, TakesText At
      (fun parse => typeFrom parse qualities.set ⟨word.kind, word.text, line⟩) text more type) :
    TakesText At (fun parse => parse .typeName) (qualities.print ++ word :: text) more type := by
  have hgreater : word ≠ .operator .greater := by
    rintro rfl
    rcases hword with ⟨hkind, -⟩ | hkind <;> exact absurd hkind (by decide)
  have heof : word.kind ≠ .eof := by
    rcases hword with ⟨hkind, -⟩ | hkind <;> simp [hkind]
  refine .of_rule (takesText_currentLine fun line => ?_)
  refine (takesText_prefixedQualities hw qualities hword _).bind ?_
  refine takesText_advance hw hgreater heof fun line' => ?_
  have hnotes : TakesText At (fun _ => noteVainQualities type line >>= fun _ => pure type)
      ([] ++ []) more type :=
    (takesText_noteVainQualities type line more).bind (q := fun _ _ => pure type) (.pure type)
  rw [← List.append_nil text]
  exact (htype line').bind hnotes

/-! ### Contained types -/

theorem expectOpeningAngle_less (rule : String) (line line' : ℕ) {ahead : List Token}
    (hahead : ahead ≠ []) :
    expectOpeningAngle rule line (base.between passed (Operator.less.token line' :: ahead)) =
      .ok () (base.between (Operator.less.token line' :: passed) ahead) := by
  have hless : (Operator.less.token line').isOperator "<" = true := rfl
  simp [expectOpeningAngle, hless, Operator.token_kind_ne_eof, hahead]

theorem takesText_open (hw : Writing At) (rule : String) (line : ℕ) (more : List Pattern) :
    TakesText At (fun _ => expectOpeningAngle rule line) [.operator .less] more () := by
  intro base passed ahead hat
  obtain ⟨token, rest, ⟨line', rfl, -⟩, rfl, hrest⟩ := hw.token (by decide) hat
  exact ⟨base, _, rest, hrest,
    .of_forall fun _ => expectOpeningAngle_less rule line line' (hw.ahead_ne_nil hrest)⟩

/-- Neither a comma nor a closing bracket belongs to the qualities before it. -/
theorem EndsContained.endsQualities (hw : Writing At) {more : List Pattern}
    (h : EndsContained more) {passed ahead : List Token} (hat : At more passed ahead) :
    ∃ next rest, ahead = next :: rest ∧ EndsQualities next := by
  obtain ⟨next, after, rfl, rfl | rfl⟩ := h
  · obtain ⟨token, rest, ⟨line, rfl, -⟩, rfl, -⟩ := hw.token (by decide) hat
    exact ⟨_, rest, rfl, endsQualities_mark "," line⟩
  · obtain ⟨first, rest, rfl, hangle, -⟩ := hw.close hat
    exact ⟨first, rest, rfl, endsQualities_of_isClosingAngle hangle⟩

theorem takesText_postfixedQualities (hw : Writing At) (qualities : QualityWords)
    {type : DataType} (hfits : (type.addQualities qualities.set).2 = none) {more : List Pattern}
    (hmore : EndsContained more) :
    TakesText At (fun _ => withPostfixedQualities type) qualities.printBehind more
      (type.addQualities qualities.set).1 := by
  intro base passed ahead hat
  obtain ⟨tokens, rest, hspells, rfl, hrest⟩ :=
    hw.splits (greater_notMem_printBehind qualities) hat
  obtain ⟨next, rest, rfl, hends⟩ := hmore.endsQualities hw hrest
  exact ⟨base, _, _, hrest, .of_forall fun _ =>
    withPostfixedQualities_print qualities hfits hspells hends base passed rest⟩

theorem readsContained (hw : Writing At) {type : TypeTerm} (qualities : QualityWords)
    (hfits : (type.tree.addQualities qualities.set).2 = none) (h : ReadsType At type) :
    ReadsContained At (.mk type qualities) := fun _ hmore =>
  (h _).bind (takesText_postfixedQualities hw qualities hfits hmore)

/-- A contained type and its closing bracket. -/
theorem takesText_enclosedType (hw : Writing At) {contained : ContainedTerm}
    (h : ReadsContained At contained) (more : List Pattern) :
    TakesText At enclosedType (contained.print ++ [.operator .greater]) more contained.tree := by
  have hclose : TakesText At (fun _ => expectClosingAngle >>= fun _ => pure contained.tree)
      ([.operator .greater] ++ []) more contained.tree :=
    (takesText_close hw).bind (q := fun _ _ => pure contained.tree) (.pure contained.tree)
  exact (h _ ⟨_, _, rfl, .inr rfl⟩).bind hclose

/-! ### Types of each form -/

theorem readsType_builtin (hw : Writing At) (qualities : QualityWords) (kind : BuiltinKind) :
    ReadsType At (.builtin qualities kind) := by
  have hkind : ∀ kind : PrimaryKind, kind ∈ [.char, .int, .float, .string, .bool, .void, .raw] →
      PrimaryKind.isTypeKeyword kind.word = true ∧ ∀ (line : ℕ) (parse : Descent),
        typeFrom parse qualities.set ⟨.keyword, kind.word, line⟩ =
          pure (.ofKind kind qualities.set) := by
    intro kind
    cases kind <;>
      first | exact fun _ => ⟨rfl, fun _ _ => rfl⟩ | exact fun hmem => absurd hmem (by decide)
  obtain ⟨hword, htype⟩ := hkind kind.val kind.property
  refine fun more => takesText_typeName hw qualities (.inl ⟨rfl, hword⟩) fun line => ?_
  simp only [Pattern.word, htype]
  exact .pure _

theorem readsType_struct (hw : Writing At) (qualities : QualityWords) {name : String}
    (hname : PrimaryKind.ofName name = .struct) : ReadsType At (.struct qualities name) := by
  have href : name ≠ "ref" := by
    rintro rfl
    cases hname
  have htype (parse : Descent) (line : ℕ) :
      typeFrom parse qualities.set ⟨.identifier, name, line⟩ =
        pure (.structNamed name qualities.set) := by
    simp [typeFrom, simpleType, Token.hasForm, href, hname]
  refine fun more => takesText_typeName hw qualities (.inr rfl) fun line => ?_
  simp only [Pattern.identifier, htype]
  exact .pure _

/-- A type with a single contained type, behind its word. -/
theorem takesText_indirectType (hw : Writing At) {contained : ContainedTerm}
    (h : ReadsContained At contained) (make : DataType → DataType) (line : ℕ)
    (more : List Pattern) :
    TakesText At (fun parse => indirectType parse make line)
      (.operator .less :: (contained.print ++ [.operator .greater])) more (make contained.tree) :=
  (takesText_open hw _ line _).bind ((takesText_enclosedType hw h more).map make)

theorem readsType_pointer (hw : Writing At) (qualities : QualityWords) {target : ContainedTerm}
    (h : ReadsContained At target) : ReadsType At (.pointer qualities target) := by
  refine fun more => takesText_typeName hw qualities (.inl ⟨rfl, rfl⟩) fun line => ?_
  simpa [typeFrom, Pattern.word, TypeTerm.tree] using
    takesText_indirectType hw h (.pointerTo · qualities.set) line more

theorem readsType_reference (hw : Writing At) (qualities : QualityWords) {target : ContainedTerm}
    (h : ReadsContained At target) : ReadsType At (.reference qualities target) := by
  refine fun more => takesText_typeName hw qualities (.inr rfl) fun line => ?_
  simpa [typeFrom, Pattern.identifier, Token.hasForm, TypeTerm.tree] using
    takesText_indirectType hw h (.referenceTo · qualities.set) line more

/-! ### Arrays -/

/-- An array without a length: a reserved word begins the type of the elements. -/
theorem takesText_arrayType_none (hw : Writing At) {element : ContainedTerm}
    (h : ReadsContained At element) (hword : startsWithWord element.print = true)
    (qualities : QualitySet) (line : ℕ) (more : List Pattern) :
    TakesText At (fun parse => arrayType parse qualities line)
      (.operator .less :: (element.print ++ [.operator .greater])) more
      (.arrayOf element.tree .unspecified qualities) := by
  obtain ⟨first, hhead, hkeyword⟩ := (Option.any_eq_true _ _).mp hword
  have hfirst : (element.print ++ [Pattern.operator .greater]).head? = some first := by
    simp [hhead]
  refine (takesText_open hw _ line _).bind (takesText_peek hw hfirst fun token hkind => ?_)
  have hread := (takesText_enclosedType hw h more).map (DataType.arrayOf · .unspecified qualities)
  simpa [hkind, hkeyword] using hread

/-- The length of an array in front of the comma behind it. -/
def lengthText (length : Term) : List Pattern :=
  Style.parenthesized (startsWithWord (length.body {})) (length.body {})

/-- A length is read as an expression. -/
theorem takesText_length (hw : Writing At) {length : Term} (h : Splits At (lengthText length))
    (more : List Pattern) :
    TakesText At (fun parse => parse (.expression {})) (lengthText length) (.mark "," :: more)
      length.tree := by
  intro base passed ahead hat
  obtain ⟨count, rest, hcount, rfl, hrest⟩ := h hat
  obtain ⟨token, rest, ⟨line, rfl, -⟩, rfl, -⟩ := hw.token (by decide) hrest
  have hcomma : Closes {} 0 ⟨.punctuation, ",", line⟩ rest := ⟨rfl, .inl rfl⟩
  have hread : Reads (.expression {})
      (base.between passed (count ++ ⟨.punctuation, ",", line⟩ :: rest)) length.tree
      (base.between (count.reverse ++ passed) (⟨.punctuation, ",", line⟩ :: rest)) :=
    reads_parenthesized (readsBody le_rfl length) hcount rfl hcomma.unmarked
      (fun _ => ⟨⟨rfl, length.clears_zero, fun h => by cases h⟩, hcomma.mono (Nat.zero_le _)⟩)
      (reads_operations_of_closes hcomma)
  exact ⟨base, _, _, hrest, hread⟩

/-- An array with its length, whose text never begins with a reserved word. -/
theorem takesText_arrayType_some (hw : Writing At) {length : Term} {element : ContainedTerm}
    (hlength : Splits At (lengthText length)) (h : ReadsContained At element)
    (qualities : QualitySet) (line : ℕ) (more : List Pattern) :
    TakesText At (fun parse => arrayType parse qualities line)
      (.operator .less :: (lengthText length ++
        .mark "," :: (element.print ++ [.operator .greater]))) more
      (.arrayOf element.tree (.ofExpression length.tree) qualities) := by
  have hword : startsWithWord (lengthText length) = false :=
    startsWithWord_parenthesized false (length.body {})
  obtain ⟨first, text, htext, -⟩ : BeginsOperand (lengthText length) :=
    beginsOperand_parenthesized (beginsOperand_body {} length)
  have hfirst : (lengthText length ++ Pattern.mark "," ::
      (element.print ++ [Pattern.operator .greater])).head? = some first := by
    simp [htext]
  refine (takesText_open hw _ line _).bind (takesText_peek hw hfirst fun token hkind => ?_)
  have hkeyword : (token.kind == .keyword) = false := by
    simpa [startsWithWord, htext, hkind] using hword
  simp only [hkeyword, Bool.false_eq_true, if_false]
  refine (takesText_length hw hlength _).bind ((takesText_comma hw).bind ?_)
  exact (takesText_enclosedType hw h more).map _

theorem readsType_array (hw : Writing At) (qualities : QualityWords) {length : Option Term}
    {element : ContainedTerm} (hwf : (TypeTerm.array qualities length element).WellFormed)
    (hlength : ∀ term ∈ length, Splits At (lengthText term)) (h : ReadsContained At element) :
    ReadsType At (.array qualities length element) := by
  refine fun more => takesText_typeName hw qualities (.inl ⟨rfl, rfl⟩) fun line => ?_
  cases length with
  | none => exact takesText_arrayType_none hw h (hwf.1 rfl) qualities.set line more
  | some length =>
    have hread := takesText_arrayType_some hw (hlength length rfl) h qualities.set line more
    simpa [typeFrom, Pattern.word, TypeTerm.tree, arrayLength, printLength, lengthText] using hread

/-! ### Tuples -/

/-- In front of a closing bracket there is no comma. -/
theorem takesText_noComma (hw : Writing At) (more : List Pattern) :
    TakesText At (fun _ => takePunctuation ",") [] (.operator .greater :: more) false := by
  intro base passed ahead hat
  obtain ⟨first, rest, rfl, hangle, -⟩ := hw.close hat
  refine ⟨base, passed, _, hat, .of_forall fun steps => ?_⟩
  have hcomma : first.isPunctuation "," = false := by
    simp [Token.isPunctuation, Token.hasForm, kind_of_isClosingAngle hangle]
  simp [hcomma]

/-- The members of a tuple end at the closing bracket. -/
theorem takesText_members_nil (hw : Writing At) (more : List Pattern) :
    TakesText At (fun parse => parse .members) [] (.operator .greater :: more) [] := by
  refine .of_rule (takesText_peek_close hw fun first hangle => ?_)
  simpa [kind_of_isClosingAngle hangle] using TakesText.pure []

/-- The members of a tuple, up to the closing bracket. -/
theorem takesText_members (hw : Writing At) {first : ContainedTerm} {members : List ContainedTerm}
    (hfirst : ReadsContained At first) (hmore : ∀ contained ∈ members, ReadsContained At contained)
    (more : List Pattern) :
    TakesText At (fun parse => parse .members) (first.print ++ ContainedTerm.printMore members)
      (.operator .greater :: more) (first.tree :: ContainedTerm.trees members) := by
  induction members generalizing first with
  | nil =>
    obtain ⟨pattern, hhead, hword⟩ := (ContainedTerm.beginsWithWord first).head?
    have hpattern : (first.print ++ []).head? = some pattern := by simp [hhead]
    refine .of_rule (takesText_peek hw hpattern fun token hkind => ?_)
    simp only [hkind, hword, if_true]
    refine (hfirst _ ⟨_, _, rfl, .inr rfl⟩).bind ?_
    show TakesText At _ ([] ++ []) _ _
    refine (takesText_noComma hw more).bind (takesText_peek_close hw fun closing hangle => ?_)
    simp only [hangle, if_true]
    exact (takesText_members_nil hw more).map _
  | cons second members ih =>
    obtain ⟨pattern, hhead, hword⟩ := (ContainedTerm.beginsWithWord first).head?
    have hpattern : (first.print ++ ContainedTerm.printMore (second :: members)).head? =
        some pattern := by
      simp [hhead]
    have hmembers := ih (hmore second List.mem_cons_self)
      fun contained hmem => hmore contained (List.mem_cons_of_mem _ hmem)
    refine .of_rule (takesText_peek hw hpattern fun token hkind => ?_)
    simp only [hkind, hword, if_true]
    refine (hfirst _ ⟨_, _, rfl, .inl rfl⟩).bind ((takesText_comma hw).bind ?_)
    exact hmembers.map _

/-- Whatever the members are, a tuple of them is made of at least one. A single one is noted. -/
theorem takesText_tupleType (hw : Writing At) {first : ContainedTerm}
    {members : List ContainedTerm} (hfirst : ReadsContained At first)
    (hmore : ∀ contained ∈ members, ReadsContained At contained) (qualities : QualitySet)
    (line : ℕ) (more : List Pattern) :
    TakesText At (fun parse => tupleType parse qualities line)
      (.operator .less :: (first.print ++ ContainedTerm.printMore members ++ [.operator .greater]))
      more (.tupleOf (first.tree :: ContainedTerm.trees members) qualities) := by
  refine (takesText_open hw _ line _).bind ((takesText_members hw hfirst hmore more).bind ?_)
  show TakesText At _ ([.operator .greater] ++ []) more _
  refine (takesText_close hw).bind ?_
  cases members with
  | nil =>
    refine fun base passed ahead hat => ⟨{ base with diagnostics := base.diagnostics ++
      [.note "Unnecessary tuple (contains only one element)" line] }, passed, ahead, hat, ?_⟩
    exact .of_forall fun _ => rfl
  | cons second members => exact .pure _

theorem readsType_tuple (hw : Writing At) (qualities : QualityWords) {first : ContainedTerm}
    {members : List ContainedTerm} (hfirst : ReadsContained At first)
    (hmore : ∀ contained ∈ members, ReadsContained At contained) :
    ReadsType At (.tuple qualities first members) := by
  refine fun more => takesText_typeName hw qualities (.inl ⟨rfl, rfl⟩) fun line => ?_
  have hread := takesText_tupleType hw hfirst hmore qualities.set line more
  simpa [typeFrom, Pattern.word, TypeTerm.tree] using hread

/-! ## All types -/

/-- The lengths of arrays in a syntax are written with a token for each pattern. -/
def SplitsLengths (At : Script) (lengths : List Term) : Prop :=
  ∀ length ∈ lengths, Splits At (lengthText length)

mutual

/-- Every well-formed type is read back. -/
theorem readsType (hw : Writing At) : ∀ type : TypeTerm, type.WellFormed →
    SplitsLengths At type.lengths → ReadsType At type
  | .builtin qualities kind, _, _ => readsType_builtin hw qualities kind
  | .struct qualities _, hwf, _ => readsType_struct hw qualities hwf
  | .pointer qualities target, hwf, hlengths =>
    readsType_pointer hw qualities (reads_contained hw target hwf hlengths)
  | .reference qualities target, hwf, hlengths =>
    readsType_reference hw qualities (reads_contained hw target hwf hlengths)
  | .array qualities length element, hwf, hlengths =>
    readsType_array hw qualities hwf
      (fun term hmem => hlengths term (by rw [hmem]; simp [TypeTerm.lengths]))
      (reads_contained hw element hwf.2 fun term hmem =>
        hlengths term (by simp [TypeTerm.lengths, hmem]))
  | .tuple qualities first members, hwf, hlengths =>
    readsType_tuple hw qualities
      (reads_contained hw first hwf.1 fun term hmem =>
        hlengths term (by simp [TypeTerm.lengths, hmem]))
      (readsAll hw members hwf.2 fun term hmem =>
        hlengths term (by simp [TypeTerm.lengths, hmem]))

theorem reads_contained (hw : Writing At) : ∀ contained : ContainedTerm, contained.WellFormed →
    SplitsLengths At contained.lengths → ReadsContained At contained
  | .mk type qualities, hwf, hlengths =>
    readsContained hw qualities hwf.1 (readsType hw type hwf.2 hlengths)

theorem readsAll (hw : Writing At) : ∀ members : List ContainedTerm,
    ContainedTerm.AllWellFormed members → SplitsLengths At (ContainedTerm.allLengths members) →
    ∀ contained ∈ members, ReadsContained At contained
  | [], _, _ => fun _ hmem => by cases hmem
  | first :: more, hwf, hlengths => by
    intro contained hmem
    have hfirst := reads_contained hw first hwf.1
      fun term hmem => hlengths term (by simp [ContainedTerm.allLengths, hmem])
    have hmore := readsAll hw more hwf.2
      fun term hmem => hlengths term (by simp [ContainedTerm.allLengths, hmem])
    rcases List.mem_cons.mp hmem with rfl | hmem
    · exact hfirst
    · exact hmore contained hmem

end

/-- The plain text of a well-formed type is read back. -/
theorem takes_type (type : TypeTerm) (hwf : type.WellFormed) {tokens : List Token}
    (hspells : Spells type.print tokens) (next : Token) (rest : List Token) :
    Takes (fun parse => parse .typeName) tokens (next :: rest) type.tree :=
  TakesText.takes (fun final => readsType (writing_plainScript next rest final) type hwf
    (fun _ _ => splits_plainScript next rest final _) []) hspells

theorem beginsWithWord_typedName (typed : TypedName) : BeginsWithWord typed.print :=
  (TypeTerm.beginsWithWord typed.type).append _

/-- A type and a name with the qualities behind it. -/
theorem takes_typedName {typed : TypedName} (hwf : typed.WellFormed) {tokens : List Token}
    (hspells : Spells typed.print tokens) (hnext : EndsQualities next) (context : String)
    (rest : List Token) :
    Takes (fun parse => typedName parse context) tokens (next :: rest)
      (typed.tree, typed.name) := by
  obtain ⟨front, back, hfront, hback, rfl⟩ := spells_append_iff.mp hspells
  obtain ⟨line, more, hmore, rfl⟩ := spells_identifier_iff.mp hback
  intro base passed
  obtain ⟨base', htype⟩ := takes_type typed.type hwf.2 hfront ⟨.identifier, typed.name, line⟩
    (more ++ next :: rest) base passed
  have hpostfixed := withPostfixedQualities_print typed.qualities hwf.1 hmore hnext base'
    (⟨.identifier, typed.name, line⟩ :: (front.reverse ++ passed)) rest
  refine ⟨base', ?_⟩
  filter_upwards [htype] with steps h₁
  simp only [List.append_assoc, List.cons_append, List.reverse_append, List.reverse_cons,
    List.nil_append]
  simp [typedName, h₁, expectIdentifier, hpostfixed, TypedName.tree]

end SinFrontend.Parser
