import SinFrontend.Proofs.ElementTypes
import SinFrontend.Proofs.RoundTrip.ClosingAngles
import SinFrontend.Proofs.RoundTrip.Declaration
import SinFrontend.Proofs.Symbols.Key
import SinFrontend.Proofs.Types.Decoration
import SinFrontend.Proofs.Types.Layering

/-!
# Qualities before a type and behind a name

A variable may be declared with its qualities before the type, or behind the name and an `&`. The
two places are read in different ways. Qualities before a type are collected first, and the type is
made with them; qualities behind a name are layered on a type that has been made without them. Both
declarations are read, and they declare the same type, except that one sign may be left out:

* a float is marked signed when it is made, whatever the set says, and `unsigned` that is layered on
  it withdraws this;
* a set in which `signed` follows `unsigned` lists both, and layering it adds them in the fixed
  order, so that only `unsigned` stays.

Main results:

* `typeFrom_remade`: with qualities before its word, a type is read as it is without them, and made
  with them.
* `IsTypeText`: a text that is read as a type in front of every name. `isTypeText_print` and
  `isTypeText_of_denotes` give those of the syntax of types.
* `exists_qualityWords_iff`: words of qualities are those without `const` beside `final`.
* `declaration_before_behind`: both declarations, and how their types differ.
* `not_sameType_of_unsigned`: a float and an integer that are declared apart.
-/

namespace SinFrontend

open QualitySet

/-- A type as its maker makes it with other qualities. -/
def DataType.remade (type : DataType) (qualities : QualitySet) : DataType :=
  { type with qualities := impliedQualities type.kind qualities }

/-- The qualities before the word of a type. -/
def TypeTerm.qualitiesBefore : TypeTerm → QualityWords
  | .builtin qualities _ | .struct qualities _ | .pointer qualities _ | .reference qualities _
  | .array qualities _ _ | .tuple qualities _ _ => qualities

/-- The set of words of qualities has come about by adding them. -/
theorem QualityWords.coherent (words : QualityWords) : words.set.Coherent := by
  have hadded := (coherent_empty.addEach words.words).1
  rwa [words.adds] at hadded

namespace Parser

/-! ## Types made with other qualities -/

section

variable (parse : Descent) (qualities : QualitySet)

theorem indirectType_map (make : DataType → DataType) (change : DataType → DataType) (line : ℕ) :
    indirectType parse (fun target => change (make target)) line =
      change <$> indirectType parse make line := by
  simp [indirectType, map_bind]

theorem arrayType_remade (line : ℕ) :
    arrayType parse qualities line = (·.remade qualities) <$> arrayType parse .empty line := by
  simp only [arrayType, map_bind]
  refine bind_congr fun _ => bind_congr fun next => ?_
  split
  · simp only [map_bind, map_pure]
    rfl
  · simp only [map_bind]
    refine bind_congr fun length => bind_congr fun comma => ?_
    split
    · simp only [map_bind, map_pure]
      rfl
    · simp only [map_bind, map_pure]
      rfl

theorem tupleType_remade (line : ℕ) :
    tupleType parse qualities line = (·.remade qualities) <$> tupleType parse .empty line := by
  simp only [tupleType, map_bind]
  refine bind_congr fun _ => bind_congr fun members => bind_congr fun _ => ?_
  split <;> simp only [map_bind, map_pure] <;> rfl

theorem simpleType_remade (word : Token) :
    simpleType word qualities = (·.remade qualities) <$> simpleType word .empty := by
  unfold simpleType
  split
  · split
    · split
      · rfl
      · rfl
    · rfl
  · rfl

theorem typeFrom_remade (word : Token) :
    typeFrom parse qualities word = (·.remade qualities) <$> typeFrom parse .empty word := by
  unfold typeFrom
  split
  · exact indirectType_map parse (.pointerTo · .empty) (·.remade qualities) word.line
  · split
    · exact indirectType_map parse (.referenceTo · .empty) (·.remade qualities) word.line
    · split
      · exact arrayType_remade parse qualities word.line
      · split
        · exact tupleType_remade parse qualities word.line
        · exact simpleType_remade qualities word

end

/-! ## Texts of types -/

/-- A word that begins a type, and is not the word `struct`. -/
def IsTypeWord (word : Token) : Prop :=
  word.kind = .identifier ∨
    word.kind = .keyword ∧ PrimaryKind.isTypeKeyword word.text = true ∧ word.text ≠ "struct"

/-- A text is that of a type without qualities before it: it begins with the word of a type, and in
    front of every name it is read as the type. -/
structure IsTypeText (text : List Token) (type : DataType) : Prop where
  begins : ∃ word more, text = word :: more ∧ IsTypeWord word
  reads : ∀ ⦃s : Session⦄ ⦃name : Token⦄ ⦃rest : List Token⦄, s.Tidy → name.kind = .identifier →
    s.cursor.ahead = text ++ name :: rest →
      ∃ later, full .typeName s = .ok type later ∧ later.cursor.ahead = name :: rest

variable {parse} {base base' s t : Session} {passed front more ahead rest : List Token}
  {word name next : Token} {type : DataType} {words : QualityWords}

theorem IsTypeWord.kind_ne_eof (h : IsTypeWord word) : word.kind ≠ .eof := by
  rcases h with hkind | ⟨hkind, -⟩ <;> simp [hkind]

/-- Words of qualities, and the word of a type behind them, can begin a declared type. -/
theorem exists_first (hspells : Spells words.print front) (hword : IsTypeWord word)
    (more : List Token) : ∃ first tail, front ++ word :: more = first :: tail ∧
      (first.kind = .keyword ∨ first.kind = .identifier) ∧ first.isKeyword "struct" = false := by
  cases front with
  | nil =>
    refine ⟨word, more, rfl, ?_⟩
    rcases hword with hkind | ⟨hkind, -, htext⟩
    · exact ⟨.inr hkind, by simp [Token.isKeyword, Token.hasForm, hkind]⟩
    · exact ⟨.inl hkind, by simp [Token.isKeyword, Token.hasForm, htext]⟩
  | cons first front =>
    obtain ⟨pattern, hpattern, line, rfl, -⟩ := hspells.exists_pattern List.mem_cons_self
    obtain ⟨quality, -, rfl⟩ := List.mem_map.mp hpattern
    refine ⟨_, front ++ word :: more, rfl, .inl rfl, ?_⟩
    cases quality <;> rfl

/-- Behind tokens that have been read, a session is as tidy as in front of them. -/
theorem tidy_between_append (h : (base.between passed (front ++ ahead)).Tidy)
    (hsolid : ∀ token ∈ front, token.kind ≠ .eof) (hahead : ahead ≠ []) :
    (base'.between (front.reverse ++ passed) ahead).Tidy := by
  obtain ⟨first, more, rfl⟩ := List.exists_cons_of_ne_nil hahead
  obtain ⟨hclosed, hpassed⟩ := h
  rw [Session.between_ahead _ _ _ (by simp)] at hclosed
  have hpassed' : ∀ token ∈ passed, token.kind ≠ .eof := by
    cases front <;> exact hpassed
  constructor
  · obtain ⟨token, hmem, hkind⟩ := hclosed
    rcases List.mem_append.mp hmem with hmem | hmem
    · exact absurd hkind (hsolid token hmem)
    · exact ⟨token, hmem, hkind⟩
  · intro token hmem
    rcases List.mem_append.mp hmem with hmem | hmem
    · exact hsolid token (List.mem_reverse.mp hmem)
    · exact hpassed' token hmem

theorem cursor_of_noteVainQualities {line : ℕ} {later : Session}
    (h : noteVainQualities type line s = .ok () later) :
    later.cursor.ahead = s.cursor.ahead := by
  obtain ⟨base', hrun⟩ := noteVainQualities_run type line s s.cursor.passed s.cursor.ahead
  rw [Session.between_self, h] at hrun
  cases hrun
  exact Session.between_ahead _ _ _ (by simp [Cursor.ahead])

/-- A type is read from the qualities before its word on. -/
theorem typeNameRule_run (parse : Descent) (hspells : Spells words.print front)
    (hword : IsTypeWord word) (hahead : ahead ≠ []) (base : Session) (passed : List Token) :
    ∃ line, typeNameRule parse (base.between passed (front ++ word :: ahead)) =
      (do
        let type ← typeFrom parse words.set word
        noteVainQualities type line
        return type) (base.between (word :: (front.reverse ++ passed)) ahead) := by
  have hprefix : prefixedQualities (base.between passed (front ++ word :: ahead)) =
      .ok words.set (base.between (front.reverse ++ passed) (word :: ahead)) := by
    refine qualitiesWhile_print words hspells _ (fun quality line => ?_) ?_ passed
    · cases quality <;> rfl
    · rcases hword with hkind | ⟨hkind, htype, -⟩ <;> simp [*]
  refine ⟨(base.between passed (front ++ word :: ahead)).cursor.current.line, ?_⟩
  simp only [typeNameRule, bind_run, currentLine_run, hprefix, advance_run,
    Session.between_advance _ _ _ _ hword.kind_ne_eof hahead, Session.between_previous]

/-- What stands behind the word of a type is read as it is without qualities before the word. -/
theorem IsTypeText.typeFrom_run (h : IsTypeText (word :: more) type) (hword : IsTypeWord word)
    (hs : (base.between passed (word :: (more ++ name :: rest))).Tidy)
    (hname : name.kind = .identifier) {steps : ℕ} (hsteps : Goal.typeName.rank
      (base.between passed (word :: (more ++ name :: rest))).left ≤ steps + 1) :
    ∃ later, typeFrom (descend steps) .empty word
        (base.between (word :: passed) (more ++ name :: rest)) = .ok type later ∧
      later.cursor.ahead = name :: rest := by
  obtain ⟨later, hread, hlater⟩ := h.reads hs hname rfl
  rw [full_typeName_eq hword.kind_ne_eof hs steps hsteps] at hread
  have hnothing : Spells QualityWords.none.print [] := spells_nil_iff.mpr rfl
  obtain ⟨line, hrun⟩ := typeNameRule_run (descend steps) hnothing hword
    (by simp : more ++ name :: rest ≠ []) base passed
  rw [List.nil_append] at hrun
  rw [hrun] at hread
  obtain ⟨found, middle, hfound, hread⟩ := exists_of_bind hread
  obtain ⟨_, behind, hnotes, hread⟩ := exists_of_bind hread
  cases hread
  exact ⟨middle, hfound, (cursor_of_noteVainQualities hnotes).symm.trans hlater⟩

/-- With qualities before its word, a text is read as the type that is made with them. A type without
    qualities has those alone that its kind implies. -/
theorem IsTypeText.reads_behind (h : IsTypeText more type) (hspells : Spells words.print front)
    (hs : s.Tidy) (hname : name.kind = .identifier)
    (hahead : s.cursor.ahead = front ++ (more ++ name :: rest)) :
    type.remade .empty = type ∧
      ∃ later, full .typeName s = .ok (type.remade words.set) later ∧
        later.cursor.ahead = name :: rest := by
  obtain ⟨word, more, rfl, hword⟩ := h.begins
  rw [List.cons_append] at hahead
  have hsolid : ∀ token ∈ front, token.kind ≠ .eof := by
    intro token hmem
    obtain ⟨pattern, hpattern, line, rfl, -⟩ := hspells.exists_pattern hmem
    obtain ⟨quality, -, rfl⟩ := List.mem_map.mp hpattern
    exact Token.Kind.noConfusion
  have hready : 0 < s.past + s.left := by
    obtain ⟨first, tail, hsplit, hfirst, -⟩ := exists_first hspells hword (more ++ name :: rest)
    refine Session.ready_of_ahead (hahead.trans hsplit) ?_
    rcases hfirst with hkind | hkind <;> simp [hkind]
  have hsession : s = s.between s.cursor.passed (front ++ word :: (more ++ name :: rest)) := by
    rw [← hahead, Session.between_self]
  have htidy : (s.between (front.reverse ++ s.cursor.passed)
      (word :: (more ++ name :: rest))).Tidy :=
    tidy_between_append (hsession ▸ hs) hsolid (by simp)
  -- the text is read in a number of steps that is large enough with and without the qualities
  let steps := Goal.typeName.rank s.left + Goal.typeName.rank (s.between
    (front.reverse ++ s.cursor.passed) (word :: (more ++ name :: rest))).left
  obtain ⟨middle, hrun, hmiddle⟩ := h.typeFrom_run hword htidy hname
    (show _ ≤ steps + 1 from by omega)
  have hremade (qualities : QualitySet) : typeFrom (descend steps) qualities word (s.between
      (word :: (front.reverse ++ s.cursor.passed)) (more ++ name :: rest)) =
        .ok (type.remade qualities) middle := by
    rw [typeFrom_remade, map_run, hrun]
  obtain ⟨line, hrule⟩ := typeNameRule_run (descend steps) hspells hword
    (by simp : more ++ name :: rest ≠ []) s s.cursor.passed
  obtain ⟨base', hnotes⟩ := noteVainQualities_run (type.remade words.set) line middle
    middle.cursor.passed middle.cursor.ahead
  rw [Session.between_self] at hnotes
  refine ⟨?_, base'.between middle.cursor.passed middle.cursor.ahead, ?_, ?_⟩
  · exact (EStateM.Result.ok.inj ((hremade .empty).symm.trans hrun)).1
  · rw [full_eq_descend .typeName hs hready (show _ ≤ steps + 1 from by omega)]
    show typeNameRule (descend steps) s = _
    rw [hsession, hrule, bind_run, hremade]
    simp only [bind_run, hnotes, pure_run]
  · rw [hmiddle]
    rfl

/-! ## Texts in the syntax of types -/

theorem exists_word_of_print {term : TypeTerm} (hplain : term.qualitiesBefore.words = []) :
    ∃ pattern more, term.print = pattern :: more ∧
      ∀ line, IsTypeWord ⟨pattern.kind, pattern.text, line⟩ := by
  have hnone {qualities : QualityWords} (h : qualities.words = []) (text : List Pattern) :
      qualities.print ++ text = text := by
    rw [QualityWords.print, h, List.map_nil, List.nil_append]
  have hbuiltin : ∀ kind : PrimaryKind, kind ∈ [.char, .int, .float, .string, .bool, .void, .raw] →
      kind.word ≠ "struct" ∧ PrimaryKind.isTypeKeyword kind.word = true := by
    intro kind
    cases kind <;> decide
  cases term with
  | builtin qualities kind =>
    obtain ⟨hstruct, htype⟩ := hbuiltin kind.val kind.property
    exact ⟨_, _, hnone hplain _, fun line => .inr ⟨rfl, htype, hstruct⟩⟩
  | struct | reference => exact ⟨_, _, hnone hplain _, fun line => .inl rfl⟩
  | pointer | array | tuple =>
    exact ⟨_, _, hnone hplain _, fun line => .inr ⟨rfl, rfl, by simp [Pattern.word]⟩⟩

/-- The plain text of a well-formed type is a text of the type. -/
theorem isTypeText_print {term : TypeTerm} (hwf : term.WellFormed)
    (hplain : term.qualitiesBefore.words = []) {tokens : List Token}
    (hspells : Spells term.print tokens) : IsTypeText tokens term.tree := by
  obtain ⟨pattern, more, hprint, hword⟩ := exists_word_of_print hplain
  rw [hprint] at hspells
  obtain ⟨line, tokens, -, htokens, rfl⟩ := spells_cons_iff.mp hspells
  refine ⟨⟨_, tokens, rfl, hword line⟩, fun s name rest hs _ hahead => ?_⟩
  exact full_typeName_print hwf hs (hprint ▸ hspells) (hword line).kind_ne_eof hahead

/-- So is the text of a type whose closing brackets are joined. -/
theorem isTypeText_of_denotes {term : TypeTerm} {denoted : DataType} (h : term.Denotes denoted)
    (hplain : term.qualitiesBefore.words = []) {joined : List Pattern} {tokens : List Token}
    (hjoins : Joins term.print joined) (hspells : Spells joined tokens) :
    IsTypeText tokens denoted := by
  obtain ⟨pattern, more, hprint, hword⟩ := exists_word_of_print hplain
  refine ⟨?_, fun s name rest hs _ hahead => typeName_of_denotes h hs hjoins hspells hahead⟩
  rw [hprint] at hjoins
  cases hjoins with
  | keep hmore =>
    obtain ⟨line, tokens, -, htokens, rfl⟩ := spells_cons_iff.mp hspells
    exact ⟨_, tokens, rfl, hword line⟩
  | join =>
    -- no type begins with a closing bracket
    rcases hword 0 with hkind | ⟨hkind, -⟩ <;> exact absurd hkind (by decide)

/-! ## Declarations -/

/-- A declaration of a variable is read with the type in front of its name, and with what is layered
    on the type behind the name. -/
theorem declaration_run {first : Token} {layered : DataType} {later : Session} (line : ℕ)
    (isParameter : Bool) (hfirst : s.cursor.current = first)
    (hkind : first.kind = .keyword ∨ first.kind = .identifier)
    (hstruct : first.isKeyword "struct" = false) (htype : parse .typeName s = .ok type later)
    (hlater : later.cursor.ahead = name :: ahead) (hname : name.kind = .identifier)
    (hahead : ahead ≠ []) (hlayered : withPostfixedQualities type
      (later.between (name :: later.cursor.passed) ahead) =
        .ok layered (base.between passed (next :: rest)))
    (hnext : EndsStatement next) :
    declaration parse line isParameter s =
      .ok ⟨.declaration layered name.text none false false [], line⟩
        (base.between passed (next :: rest)) := by
  have hsession : later = later.between later.cursor.passed (name :: ahead) := by
    rw [← hlater, Session.between_self]
  have hidentifier : expectIdentifier "after type in declaration" later =
      .ok name.text (later.between (name :: later.cursor.passed) ahead) := by
    have hsolid : name.kind ≠ .eof := by simp [hname]
    rw [hsession]
    simp [expectIdentifier, hname, Session.between_advance _ _ _ _ hsolid hahead]
    rfl
  have hvalue : next.isOperator ":" = false := hnext.isOperator ":"
  simp [declaration, hfirst, hstruct, typedDeclaration, expectTypeStart, hkind, typedName, htype,
    hidentifier, hlayered, hnext.paren, declaredValue, hvalue, expectStatementEnd_run hnext]

/-- The declaration of a variable as a statement or as a parameter. -/
theorem full_declaration {decl first : Token} {layered : DataType} {later : Session}
    (isParameter : Bool) (hs : s.Tidy) (hdecl : decl.isKeyword "decl" = true)
    (hfirst : s.cursor.ahead = decl :: first :: more)
    (hkind : first.kind = .keyword ∨ first.kind = .identifier)
    (hstruct : first.isKeyword "struct" = false)
    (htype : full .typeName (s.on .advance) = .ok type later)
    (hlater : later.cursor.ahead = name :: ahead) (hname : name.kind = .identifier)
    (hahead : ahead ≠ []) (hlayered : withPostfixedQualities type
      (later.between (name :: later.cursor.passed) ahead) =
        .ok layered (base.between passed (next :: rest)))
    (hnext : EndsStatement next) :
    full (.statement isParameter) s =
      .ok (some ⟨.declaration layered name.text none false false [], decl.line⟩)
        (base.between passed (next :: rest)) := by
  have hword := kind_of_isKeyword hdecl
  have htext : decl.text = "decl" := by
    simpa [Token.isKeyword, Token.hasForm, hword] using hdecl
  have hsolid : decl.kind ≠ .eof := by simp [hword]
  obtain ⟨htidy, hbehind, hprevious⟩ := hs.advance_ahead hfirst hsolid
  have hready : 0 < (s.on .advance).past + (s.on .advance).left := by
    refine Session.ready_of_ahead hbehind ?_
    rcases hkind with hkind | hkind <;> simp [hkind]
  let steps := Goal.typeName.rank (s.on .advance).left + (Goal.statement isParameter).rank s.left
  rw [full_eq_descend .typeName htidy hready (show _ ≤ steps from by omega)] at htype
  have hrun := declaration_run decl.line isParameter (List.cons.inj hbehind).1 hkind hstruct htype
    hlater hname hahead hlayered hnext
  rw [full_eq_descend _ hs (Session.ready_of_ahead hfirst hsolid) (show _ ≤ steps + 1 from by omega)]
  show statementRule (descend steps) isParameter s = _
  simp [statementRule, hprevious, hword, keywordStatement, htext, hrun]

/-! ## Both places compared -/

/-- The words of qualities that can be added one by one are those without `const` beside `final`. -/
theorem exists_qualityWords_iff {list : List Quality} :
    (∃ words : QualityWords, words.words = list) ↔ ¬(.const ∈ list ∧ .final ∈ list) := by
  constructor
  · rintro ⟨words, rfl⟩ ⟨hconst, hfinal⟩
    have hlists {quality : Quality} (hkept : ∀ other : Quality, other.withdraws quality = false) :
        words.set.lists quality = true ↔ quality ∈ words.words :=
      (lists_of_addEach_empty words.adds quality).trans (remains_iff_mem hkept)
    exact words.coherent.consistent
      ⟨(hlists fun other => by cases other <;> rfl).mpr hconst,
        (hlists fun other => by cases other <;> rfl).mpr hfinal⟩
  · intro hagree
    exact ⟨⟨list, _, Prod.ext rfl (addEach_conflict_eq_none (by simpa [empty] using hagree))⟩, rfl⟩

/-- Whether words of qualities leave both signs on a type that is made with them: `unsigned` is among
    them, and either the type is a float, or the last sign among them is `signed`. -/
def KeepsBothSigns (words : List Quality) (kind : PrimaryKind) : Prop :=
  .unsigned ∈ words ∧ (kind = .float ∨ Remains words .signed)

theorem bothSigns_iff (words : QualityWords) (kind : PrimaryKind) :
    DataType.bothSigns kind words.set = true ↔ KeepsBothSigns words.words kind := by
  have hsigned : words.set.signed = true ↔ _ := lists_of_addEach_empty words.adds .signed
  have hunsigned : words.set.unsigned = true ↔ _ := lists_of_addEach_empty words.adds .unsigned
  rw [DataType.bothSigns, Bool.and_eq_true, Bool.or_eq_true, beq_iff_eq, hsigned, hunsigned,
    remains_iff_mem fun other => by cases other <;> rfl, KeepsBothSigns]

/-- What is layered on a type behind a name, against the type that is made with the qualities. -/
theorem addQualities_remade (words : QualityWords) (hplain : type.remade .empty = type) :
    type.addQualities words.set =
      ({ type.remade words.set with
          qualities := { (type.remade words.set).qualities with
            signed := (type.remade words.set).qualities.signed &&
              !DataType.bothSigns type.kind words.set } }, none) := by
  have hqualities : type.qualities = DataType.impliedQualities type.kind .empty :=
    (congrArg DataType.qualities hplain).symm
  rw [DataType.addQualities, hqualities, DataType.addAll_impliedQualities words.coherent]
  rfl

theorem keyOf_eq_keyOf_iff {before after : DataType} (name : String) (scope : List String) :
    Symbol.keyOf name scope before = Symbol.keyOf name scope after ↔
      before.decoration = after.decoration := by
  rw [Symbol.keyOf, Symbol.keyOf, ← String.toList_inj, ← String.toList_inj]
  simp only [String.toList_append, List.append_cancel_left_eq]

/-- Types that differ in nothing but their qualities have the same decoration exactly if they have the
    same qualities. -/
theorem decoration_eq_iff_qualities {qualities : QualitySet} :
    type.decoration = ({ type with qualities } : DataType).decoration ↔
      type.qualities = qualities := by
  constructor
  · intro hsame
    have hchars := congrArg String.toList hsame
    rw [DataType.toList_decoration, DataType.toList_decoration] at hchars
    have htail := (List.cons.inj hchars).2
    have hletters := List.append_cancel_right (List.append_cancel_left htail)
    exact QualitySet.decoration_injective hletters
  · rintro rfl
    cases type
    rfl

theorem sameType_self : ∀ type : DataType, type.sameType type = true := by
  refine DataType.induction_on_parts fun type ih => ?_
  exact DataType.sameType_iff.mpr ⟨rfl, rfl, rfl, List.forall₂_same.mpr ih⟩

/-- So they are the same type exactly then. -/
theorem sameType_iff_qualities {qualities : QualitySet} :
    type.sameType { type with qualities } = true ↔ type.qualities = qualities := by
  constructor
  · intro hsame
    exact (DataType.sameType_iff.mp hsame).2.1
  · rintro rfl
    cases type
    exact sameType_self _

/-- The types of the two declarations, compared: they differ in their qualities at most, and only if
    the words leave both signs. -/
theorem compare_remade (words : QualityWords) (hplain : type.remade .empty = type) :
    ∃ qualities, (type.addQualities words.set).1 = { type.remade words.set with qualities } ∧
      ((type.remade words.set).qualities = qualities ↔ ¬KeepsBothSigns words.words type.kind) ∧
      (KeepsBothSigns words.words type.kind →
        (type.remade words.set).qualities.signed = true ∧
          qualities = { (type.remade words.set).qualities with signed := false }) := by
  have hsigned := @DataType.signed_of_bothSigns type.kind words.set
  rw [← bothSigns_iff]
  refine ⟨_, congrArg Prod.fst (addQualities_remade words hplain), ?_, ?_⟩
  · cases hboth : DataType.bothSigns type.kind words.set with
    | false => exact iff_of_true (by simp) Bool.false_ne_true
    | true =>
      refine iff_of_false (fun hsame => ?_) (not_not_intro rfl)
      have hkept := congrArg QualitySet.signed hsame
      rw [show (type.remade words.set).qualities.signed = true from hsigned hboth] at hkept
      simp at hkept
  · intro hboth
    refine ⟨hsigned hboth, ?_⟩
    simp only [hboth, Bool.not_true, Bool.and_false]

/-- A variable may be declared with qualities before its type, or behind its name and an `&`, which
    is not written if there are no qualities. Both declarations are read, and the types differ only
    where the words leave both signs on a type that is made with them: then the qualities behind the
    name take `signed` away, and nothing else. -/
theorem declaration_before_behind {text text' front behind rest rest' : List Token}
    (htext : IsTypeText text type) (htext' : IsTypeText text' type)
    (hfront : Spells words.print front) (hbehind : Spells words.printBehind behind)
    (hs : s.Tidy) (ht : t.Tidy) {line line' row row' : ℕ} {declared : String} {next next' : Token}
    (hnext : EndsStatement next) (hnext' : EndsStatement next')
    (hprefixed : s.cursor.ahead = ⟨.keyword, "decl", line⟩ ::
      (front ++ (text ++ ⟨.identifier, declared, row⟩ :: next :: rest)))
    (hpostfixed : t.cursor.ahead = ⟨.keyword, "decl", line'⟩ ::
      (text' ++ ⟨.identifier, declared, row'⟩ :: (behind ++ next' :: rest')))
    (isParameter : Bool) :
    ∃ before after later later',
      full (.statement isParameter) s =
        .ok (some ⟨.declaration before declared none false false [], line⟩) later ∧
      later.cursor.ahead = next :: rest ∧
      full (.statement isParameter) t =
        .ok (some ⟨.declaration after declared none false false [], line'⟩) later' ∧
      later'.cursor.ahead = next' :: rest' ∧
      (¬KeepsBothSigns words.words type.kind → after = before) ∧
      (KeepsBothSigns words.words type.kind → before.qualities.signed = true ∧
        after = { before with qualities := { before.qualities with signed := false } }) ∧
      (before.sameType after = true ↔ ¬KeepsBothSigns words.words type.kind) ∧
      ∀ scope, Symbol.keyOf declared scope before = Symbol.keyOf declared scope after ↔
        ¬KeepsBothSigns words.words type.kind := by
  obtain ⟨word, more, rfl, hword⟩ := htext.begins
  obtain ⟨word', more', rfl, hword'⟩ := htext'.begins
  obtain ⟨htidy, hahead, -⟩ := hs.advance_ahead hprefixed (by simp)
  obtain ⟨htidy', hahead', -⟩ := ht.advance_ahead hpostfixed (by simp)
  obtain ⟨first, tail, hfirst, hkind, hstruct⟩ := exists_first hfront hword
    (more ++ ⟨.identifier, declared, row⟩ :: next :: rest)
  have hnothing : Spells QualityWords.none.print [] := spells_nil_iff.mpr rfl
  obtain ⟨first', tail', hfirst', hkind', hstruct'⟩ := exists_first hnothing hword'
    (more' ++ ⟨.identifier, declared, row'⟩ :: (behind ++ next' :: rest'))
  obtain ⟨hplain, later, hread, hlater⟩ := htext.reads_behind hfront htidy rfl hahead
  obtain ⟨later', hread', hlater'⟩ := htext'.reads htidy' rfl hahead'
  have hbefore : withPostfixedQualities (type.remade words.set)
      (later.between (⟨.identifier, declared, row⟩ :: later.cursor.passed) (next :: rest)) =
        .ok (type.remade words.set)
          (later.between (⟨.identifier, declared, row⟩ :: later.cursor.passed) (next :: rest)) := by
    simp [withPostfixedQualities, hnext.isOperator]
  have hfits : (type.addQualities words.set).2 = none := by rw [addQualities_remade words hplain]
  have hafter := withPostfixedQualities_print words hfits hbehind hnext'.endsQualities later'
    (⟨.identifier, declared, row'⟩ :: later'.cursor.passed) rest'
  have hprefix := full_declaration isParameter hs rfl (hprefixed.trans (congrArg _ hfirst)) hkind
    hstruct hread hlater rfl (by simp) hbefore hnext
  have hpostfix := full_declaration isParameter ht rfl (hpostfixed.trans (congrArg _ hfirst')) hkind'
    hstruct' hread' hlater' rfl (by simp) hafter hnext'
  obtain ⟨qualities, hqualities, hsame, hdiffer⟩ := compare_remade words hplain
  rw [hqualities] at hpostfix
  refine ⟨_, _, _, _, hprefix, rfl, hpostfix, rfl, ?_, ?_, ?_, fun scope => ?_⟩
  · intro hsigns
    rw [← hsame.mpr hsigns]
    rfl
  · intro hsigns
    obtain ⟨hsigned, rfl⟩ := hdiffer hsigns
    exact ⟨hsigned, rfl⟩
  · exact sameType_iff_qualities.trans hsame
  · exact (keyOf_eq_keyOf_iff declared scope).trans (decoration_eq_iff_qualities.trans hsame)

/-- `decl const unsigned int x;` and `decl int x &const unsigned;` declare the same type. -/
theorem declaration_before_behind_const :
    let words : QualityWords := ⟨[.const, .unsigned], { const := true, unsigned := true }, rfl⟩
    let term : TypeTerm := .builtin .none ⟨.int, by decide⟩
    let name : Token := ⟨.identifier, "x", 1⟩
    let text := term.print.map (Pattern.token 1)
    let front := words.print.map (Pattern.token 1)
    let behind := words.printBehind.map (Pattern.token 1)
    let ending : List Token := [⟨.punctuation, ";", 1⟩, .eof 1]
    let s := Session.ofTokens (⟨.keyword, "decl", 1⟩ :: (front ++ (text ++ name :: ending)))
    let t := Session.ofTokens (⟨.keyword, "decl", 1⟩ :: (text ++ name :: (behind ++ ending)))
    IsTypeText text term.tree ∧ Spells words.print front ∧ Spells words.printBehind behind ∧
      s.Tidy ∧ t.Tidy ∧
      ∃ type later later',
        full (.statement false) s =
          .ok (some ⟨.declaration type "x" none false false [], 1⟩) later ∧
        full (.statement false) t =
          .ok (some ⟨.declaration type "x" none false false [], 1⟩) later' := by
  intro words term name text front behind ending s t
  have hwf : term.WellFormed := trivial
  have htext : IsTypeText text term.tree := isTypeText_print hwf rfl (spells_token 1 _)
  have hfront : Spells words.print front := spells_token 1 _
  have hbehind : Spells words.printBehind behind := spells_token 1 _
  have hs : s.Tidy := Session.tidy_ofTokens _
  have ht : t.Tidy := Session.tidy_ofTokens _
  have hnext : EndsStatement ⟨.punctuation, ";", 1⟩ := .inl rfl
  obtain ⟨before, after, later, later', hbefore, -, hafter, -, hequal, -⟩ :=
    declaration_before_behind htext htext hfront hbehind hs ht hnext hnext rfl rfl false
  have hsigns : ¬KeepsBothSigns words.words term.tree.kind := by
    rintro ⟨-, hkind | hremains⟩
    · cases hkind
    · exact absurd ((lists_of_addEach_empty words.adds .signed).mpr hremains) (by decide)
  cases hequal hsigns
  exact ⟨htext, hfront, hbehind, hs, ht, before, later, later', hbefore, hafter⟩

/-- A text declares the variable `x` with a type. -/
def Declares (text : String) (type : DataType) : Prop :=
  ∃ tokens later, Token.ofText text = .ok tokens ∧
    full (.statement false) (.ofTokens tokens) =
      .ok (some ⟨.declaration type "x" none false false [], 1⟩) later

/-- Whether a statement declares the variable `x` with a type of no parts. -/
def declaresSimple (kind : PrimaryKind) (qualities : QualitySet) : Option Statement → Bool
  | some ⟨.declaration ⟨kind', [], qualities', .unspecified, none⟩ name none false false [], line⟩ =>
    (kind', qualities', name, line) == (kind, qualities, "x", 1)
  | _ => false

theorem declares_of_readsAs {text : String} {kind : PrimaryKind} {qualities : QualitySet}
    (h : readsAs (full (.statement false)) (fun _ => declaresSimple kind qualities) text = true) :
    Declares text ⟨kind, [], qualities, .unspecified, none⟩ := by
  obtain ⟨tokens, statement, later, htokens, hrun, htest⟩ := exists_of_readsAs h
  unfold declaresSimple at htest
  split at htest
  · cases beq_iff_eq.mp htest
    exact ⟨tokens, later, htokens, hrun⟩
  · cases htest

/-- Types of no parts that differ in their qualities are not the same, and give a name two keys. -/
theorem exists_declares_apart {before after : String} {kind : PrimaryKind}
    {qualities qualities' : QualitySet} (hdiffer : qualities ≠ qualities')
    (hbefore : readsAs (full (.statement false))
      (fun _ => declaresSimple kind qualities) before = true)
    (hafter : readsAs (full (.statement false))
      (fun _ => declaresSimple kind qualities') after = true) :
    ∃ type type', Declares before type ∧ Declares after type' ∧ type.sameType type' = false ∧
      Symbol.keyOf "x" [] type ≠ Symbol.keyOf "x" [] type' := by
  refine ⟨_, _, declares_of_readsAs hbefore, declares_of_readsAs hafter, ?_, ?_⟩
  · exact Bool.eq_false_iff.mpr fun hsame => hdiffer (DataType.sameType_iff.mp hsame).2.1
  · rw [ne_eq, keyOf_eq_keyOf_iff]
    exact fun hsame => hdiffer (decoration_eq_iff_qualities.mp hsame)

/-- A float whose `unsigned` stands in the other place is of another type, and so is an integer with
    both signs. -/
theorem not_sameType_of_unsigned :
    (∃ before after, Declares "decl unsigned float x;" before ∧
      Declares "decl float x &unsigned;" after ∧ before.sameType after = false ∧
      Symbol.keyOf "x" [] before ≠ Symbol.keyOf "x" [] after) ∧
    ∃ before after, Declares "decl unsigned signed int x;" before ∧
      Declares "decl int x &unsigned signed;" after ∧ before.sameType after = false ∧
      Symbol.keyOf "x" [] before ≠ Symbol.keyOf "x" [] after := by
  have hdiffer : ({ signed := true, unsigned := true } : QualitySet) ≠ { unsigned := true } := by
    decide
  constructor
  · have hbefore : readsAs (full (.statement false))
        (fun _ => declaresSimple .float { signed := true, unsigned := true })
        "decl unsigned float x;" = true := by
      decide +kernel
    exact exists_declares_apart hdiffer hbefore (by decide +kernel)
  · have hbefore : readsAs (full (.statement false))
        (fun _ => declaresSimple .int { signed := true, unsigned := true })
        "decl unsigned signed int x;" = true := by
      decide +kernel
    exact exists_declares_apart hdiffer hbefore (by decide +kernel)

end Parser

end SinFrontend
