import SinFrontend.Proofs.RoundTrip.TypeTerm

/-!
# Closing brackets that share a token

Where several types end together, their closing brackets may stand in a text as `>`, as `>>`, or as
any mix of both. A type is read as the same type from each of them.

* `Joins`: some pairs of closing brackets in a text are joined.
* `TypeTerm.Denotes`: the types that a syntax with decimal lengths stands for.
* `typeName_of_denotes`: however its closing brackets are joined, a type is read as what it denotes.
-/

namespace SinFrontend

/-! ## Joining closing brackets -/

/-- In a text, some pairs of adjacent closing brackets are joined. -/
inductive Joins : List Pattern → List Pattern → Prop where
  | nil : Joins [] []
  | keep {pattern : Pattern} {text joined : List Pattern} (more : Joins text joined) :
      Joins (pattern :: text) (pattern :: joined)
  | join {text joined : List Pattern} (more : Joins text joined) :
      Joins (.operator .greater :: .operator .greater :: text) (.operator .rightShift :: joined)

/-! ## What types denote -/

/-- The text of a decimal numeral. -/
def IsDecimal (text : String) : Prop :=
  text ≠ "" ∧ ∀ c ∈ text.toList, c.isDigit = true

mutual

/-- The types that a syntax stands for, if all lengths in it are decimal numerals that fit in 64
    bits. -/
inductive TypeTerm.Denotes : TypeTerm → DataType → Prop where
  | builtin (qualities : QualityWords) (kind : BuiltinKind) :
      TypeTerm.Denotes (.builtin qualities kind) (.ofKind kind.val qualities.set)
  | struct (qualities : QualityWords) {name : String} (free : Token.isReserved name = false)
      (notRef : name ≠ "ref") :
      TypeTerm.Denotes (.struct qualities name) (.structNamed name qualities.set)
  | pointer (qualities : QualityWords) {target : ContainedTerm} {type : DataType}
      (inside : target.Denotes type) :
      TypeTerm.Denotes (.pointer qualities target) (.pointerTo type qualities.set)
  | reference (qualities : QualityWords) {target : ContainedTerm} {type : DataType}
      (inside : target.Denotes type) :
      TypeTerm.Denotes (.reference qualities target) (.referenceTo type qualities.set)
  | array (qualities : QualityWords) {element : ContainedTerm} {type : DataType}
      (inside : element.Denotes type) (word : startsWithWord element.print = true) :
      TypeTerm.Denotes (.array qualities none element) (.arrayOf type .unspecified qualities.set)
  | sizedArray (qualities : QualityWords) {text : String} {length : ℕ} {element : ContainedTerm}
      {type : DataType} (inside : element.Denotes type) (numeral : IsDecimal text)
      (value : Nat.ofDigitChars 10 text.toList 0 = length) (fits : length < UInt64.size) :
      TypeTerm.Denotes (.array qualities (some (.literal .int text)) element)
        (.arrayOf type (.resolved length) qualities.set)
  | tuple (qualities : QualityWords) {first : ContainedTerm} {more : List ContainedTerm}
      {type : DataType} {types : List DataType} (inside : first.Denotes type)
      (others : ContainedTerm.DenoteAll more types) :
      TypeTerm.Denotes (.tuple qualities first more) (.tupleOf (type :: types) qualities.set)

/-- The types that a contained type stands for, with the qualities behind it. -/
inductive ContainedTerm.Denotes : ContainedTerm → DataType → Prop where
  | mk {type : TypeTerm} {qualities : QualityWords} {denoted layered : DataType}
      (inside : type.Denotes denoted)
      (adds : denoted.addQualities qualities.set = (layered, none)) :
      ContainedTerm.Denotes (.mk type qualities) layered

/-- The types that contained types stand for, one by one. -/
inductive ContainedTerm.DenoteAll : List ContainedTerm → List DataType → Prop where
  | nil : ContainedTerm.DenoteAll [] []
  | cons {first : ContainedTerm} {more : List ContainedTerm} {type : DataType}
      {types : List DataType} (inside : first.Denotes type)
      (others : ContainedTerm.DenoteAll more types) :
      ContainedTerm.DenoteAll (first :: more) (type :: types)

end

namespace Parser

/-! ## Reading joined brackets -/

/-- A text is written with some of its closing brackets joined, in front of `next` and `rest`. -/
def joinedScript (next : Token) (rest : List Token) : Script := fun text _ ahead =>
  ∃ joined tokens, Joins text joined ∧ Spells joined tokens ∧ ahead = tokens ++ next :: rest

theorem text_rightShift (line : ℕ) :
    (Operator.rightShift.token line).text.toList = ['>', '>'] := by
  simp [Operator.token, Operator.symbol]

theorem isClosingAngle_rightShift (line : ℕ) :
    isClosingAngle (Operator.rightShift.token line) = true := by
  rw [isClosingAngle, text_rightShift]
  rfl

/-- Closing a type takes one bracket off a token of two, and leaves the other in place. -/
theorem expectClosingAngle_rightShift (base : Session) (passed : List Token) (line : ℕ)
    (ahead : List Token) :
    expectClosingAngle (base.between passed (Operator.rightShift.token line :: ahead)) =
      .ok () (base.between passed (Operator.greater.token line :: ahead)) := by
  simp [expectClosingAngle, isClosingAngle_rightShift, text_rightShift]
  rfl

theorem writing_joinedScript (next : Token) (rest : List Token) :
    Writing (joinedScript next rest) where
  ahead_ne_nil := by
    rintro text passed ahead ⟨joined, tokens, -, -, rfl⟩
    simp
  token := by
    rintro pattern more passed ahead hpattern ⟨joined, tokens, hjoins, hspells, rfl⟩
    cases hjoins with
    | keep hmore =>
      obtain ⟨line, tokens, hline, hmore', rfl⟩ := spells_cons_iff.mp hspells
      exact ⟨_, tokens ++ next :: rest, ⟨line, rfl, hline⟩, rfl, _, tokens, hmore, hmore', rfl⟩
    | join => exact absurd rfl hpattern
  close := by
    rintro more passed ahead ⟨joined, tokens, hjoins, hspells, rfl⟩
    cases hjoins with
    | keep hmore =>
      obtain ⟨line, tokens, hmore', rfl⟩ := spells_operator_iff.mp hspells
      refine ⟨_, tokens ++ next :: rest, rfl, isClosingAngle_greater line,
        Operator.greater.token line :: passed, _, ⟨_, tokens, hmore, hmore', rfl⟩, fun base => ?_⟩
      exact expectClosingAngle_greater base passed line (by simp)
    | join hmore =>
      obtain ⟨line, tokens, hmore', rfl⟩ := spells_operator_iff.mp hspells
      refine ⟨_, tokens ++ next :: rest, rfl, isClosingAngle_rightShift line, passed, _,
        ⟨_, Operator.greater.token line :: tokens, .keep hmore,
          spells_operator_iff.mpr ⟨line, tokens, hmore', rfl⟩, rfl⟩, fun base => ?_⟩
      exact expectClosingAngle_rightShift base passed line _

/-! ## Types with joined brackets -/

theorem ofName_of_free {name : String} (free : Token.isReserved name = false)
    (notRef : name ≠ "ref") : PrimaryKind.ofName name = .struct := by
  unfold PrimaryKind.ofName
  split
  case h_8 => exact absurd rfl notRef
  case h_12 => rfl
  all_goals exact absurd free (by decide)

theorem arrayLength_decimal {text : String} {length : ℕ} (numeral : IsDecimal text)
    (value : Nat.ofDigitChars 10 text.toList 0 = length) (fits : length < UInt64.size) :
    arrayLength (some (.literal .int text)) = .resolved length := by
  obtain ⟨hsome, hdigits⟩ := numeral
  have hsign : ∀ digits, text.toList ≠ '+' :: digits := by
    intro digits htext
    exact absurd (hdigits '+' (by rw [htext]; exact List.mem_cons_self)) (by decide)
  have hread : ArrayLength.read? text = some length := by
    unfold ArrayLength.read?
    split
    next digits htext => exact absurd htext (hsign digits)
    next => simpa [hsome, value] using ⟨hdigits, fits⟩
  show ArrayLength.ofExpression (.ofLiteral .int text) = .resolved length
  have hint : (DataType.ofLiteral .int).kind = .int := rfl
  simp [ArrayLength.ofExpression, Expression.ofLiteral, hint, hread]

/-- A literal of an integer as the length of an array. -/
def IsIntLiteral (length : Term) : Prop :=
  ∃ text, length = .literal .int text

mutual

/-- What a syntax denotes is its tree; it is well-formed, and its lengths are numerals. -/
theorem tree_of_denotes : ∀ {type : TypeTerm} {denoted : DataType}, type.Denotes denoted →
    type.tree = denoted ∧ type.WellFormed ∧ ∀ length ∈ type.lengths, IsIntLiteral length
  | _, _, .builtin _ _ => ⟨rfl, trivial, by simp [TypeTerm.lengths]⟩
  | _, _, .struct _ free notRef =>
    ⟨rfl, ofName_of_free free notRef, by simp [TypeTerm.lengths]⟩
  | _, _, .pointer qualities inside => by
    obtain ⟨rfl, hwf, hlengths⟩ := tree_of_denotes_contained inside
    exact ⟨rfl, hwf, hlengths⟩
  | _, _, .reference qualities inside => by
    obtain ⟨rfl, hwf, hlengths⟩ := tree_of_denotes_contained inside
    exact ⟨rfl, hwf, hlengths⟩
  | _, _, .array qualities inside word => by
    obtain ⟨rfl, hwf, hlengths⟩ := tree_of_denotes_contained inside
    exact ⟨rfl, ⟨fun _ => word, hwf⟩, by simpa [TypeTerm.lengths] using hlengths⟩
  | _, _, .sizedArray qualities inside numeral value fits => by
    obtain ⟨rfl, hwf, hlengths⟩ := tree_of_denotes_contained inside
    refine ⟨?_, ⟨fun h => (by cases h), hwf⟩, ?_⟩
    · rw [TypeTerm.tree, arrayLength_decimal numeral value fits]
    · simp only [TypeTerm.lengths, Option.toList_some, List.singleton_append, List.forall_mem_cons]
      exact ⟨⟨_, rfl⟩, hlengths⟩
  | _, _, .tuple qualities inside others => by
    obtain ⟨rfl, hwf, hlengths⟩ := tree_of_denotes_contained inside
    obtain ⟨rfl, hwfs, hothers⟩ := trees_of_denoteAll others
    refine ⟨rfl, ⟨hwf, hwfs⟩, ?_⟩
    simp only [TypeTerm.lengths, List.forall_mem_append]
    exact ⟨hlengths, hothers⟩

theorem tree_of_denotes_contained : ∀ {contained : ContainedTerm} {denoted : DataType},
    contained.Denotes denoted → contained.tree = denoted ∧ contained.WellFormed ∧
      ∀ length ∈ contained.lengths, IsIntLiteral length
  | _, _, .mk inside adds => by
    obtain ⟨rfl, hwf, hlengths⟩ := tree_of_denotes inside
    exact ⟨by rw [ContainedTerm.tree, adds], ⟨by rw [adds], hwf⟩, hlengths⟩

theorem trees_of_denoteAll : ∀ {members : List ContainedTerm} {types : List DataType},
    ContainedTerm.DenoteAll members types → ContainedTerm.trees members = types ∧
      ContainedTerm.AllWellFormed members ∧
      ∀ length ∈ ContainedTerm.allLengths members, IsIntLiteral length
  | _, _, .nil => ⟨rfl, trivial, by simp [ContainedTerm.allLengths]⟩
  | _, _, .cons inside others => by
    obtain ⟨rfl, hwf, hlengths⟩ := tree_of_denotes_contained inside
    obtain ⟨rfl, hwfs, hothers⟩ := trees_of_denoteAll others
    refine ⟨rfl, ⟨hwf, hwfs⟩, ?_⟩
    simp only [ContainedTerm.allLengths, List.forall_mem_append]
    exact ⟨hlengths, hothers⟩

end

theorem greater_notMem_lengthText (text : String) :
    .operator .greater ∉ lengthText (.literal .int text) := by
  intro hmem
  have hkind : (Pattern.operator .greater).kind = .int :=
    congrArg Pattern.kind (List.mem_singleton.mp hmem)
  exact absurd hkind (by decide)

/-- However its closing brackets are joined, a type is read as what it denotes, and the first token
    behind it is left. -/
theorem typeName_of_denotes {type : TypeTerm} {denoted : DataType} (h : type.Denotes denoted)
    {joined : List Pattern} {tokens rest : List Token} {next : Token} {session : Session}
    (hs : session.Tidy) (hjoins : Joins type.print joined) (hspells : Spells joined tokens)
    (hahead : session.cursor.ahead = tokens ++ next :: rest) :
    ∃ later, full .typeName session = .ok denoted later ∧
      later.cursor.ahead = next :: rest := by
  obtain ⟨rfl, hwf, hlengths⟩ := tree_of_denotes h
  have hw := writing_joinedScript next rest
  have hat : joinedScript next rest (type.print ++ []) session.cursor.passed
      session.cursor.ahead := ⟨joined, tokens, by simpa using hjoins, hspells, hahead⟩
  have hsplits : SplitsLengths (joinedScript next rest) type.lengths := by
    intro length hmem
    obtain ⟨text, rfl⟩ := hlengths length hmem
    exact hw.splits (greater_notMem_lengthText text)
  obtain ⟨base, passed, ahead, ⟨_, tokens, hnil, hspells, rfl⟩, hread⟩ :=
    readsType hw type hwf hsplits [] session _ _ hat
  cases hnil
  cases hspells
  rw [Session.between_self] at hread
  have hread' : Reads .typeName session type.tree (base.between passed (next :: rest)) := hread
  have hready : 0 < session.past + session.left := by
    obtain ⟨first, hfirst, hword⟩ := (TypeTerm.beginsWithWord type).head?
    obtain ⟨text, htext⟩ := List.head?_eq_some_iff.mp hfirst
    rw [htext] at hat
    obtain ⟨current, more, hcurrent, hkind⟩ := hw.first hat
    have hleft : 0 < session.left := by
      rw [Session.left_pos_iff, (List.cons.inj hcurrent).1, hkind]
      rintro heof
      simp [heof] at hword
    omega
  exact ⟨_, hread'.full hs hready, rfl⟩

/-- The type `array<3, const ptr<ptr<Point & const>>>`, two of whose brackets are one token. -/
theorem typeName_of_denotes_array :
    ∃ later, full .typeName (Session.ofTokens
        [⟨.keyword, "array", 1⟩, ⟨.operator, "<", 1⟩, ⟨.int, "3", 1⟩, ⟨.punctuation, ",", 1⟩,
          ⟨.keyword, "const", 1⟩, ⟨.keyword, "ptr", 1⟩, ⟨.operator, "<", 1⟩,
          ⟨.keyword, "ptr", 1⟩, ⟨.operator, "<", 1⟩, ⟨.identifier, "Point", 1⟩,
          ⟨.operator, "&", 1⟩, ⟨.keyword, "const", 1⟩, ⟨.operator, ">>", 1⟩, ⟨.operator, ">", 1⟩,
          ⟨.identifier, "x", 1⟩]) =
        .ok (.arrayOf (.pointerTo (.pointerTo (.structNamed "Point" { const := true }) .empty)
          { const := true }) (.resolved 3) .empty) later ∧
      later.cursor.ahead = [⟨.identifier, "x", 1⟩, Token.eof 1] := by
  let const : QualityWords := ⟨[.const], { const := true }, rfl⟩
  have hpoint : ContainedTerm.Denotes (.mk (.struct .none "Point") const)
      (.structNamed "Point" { const := true }) :=
    .mk (.struct .none (by decide) (by decide)) rfl
  have hinner : ContainedTerm.Denotes (.mk (.pointer .none _) .none) _ :=
    .mk (.pointer .none hpoint) rfl
  have houter : ContainedTerm.Denotes (.mk (.pointer const _) .none) _ :=
    .mk (.pointer const hinner) rfl
  have hthree : IsDecimal "3" := ⟨by decide, by simp⟩
  have harray := TypeTerm.Denotes.sizedArray .none houter hthree rfl (by decide)
  have hjoins : Joins _ ([.word "array", .operator .less, ⟨.int, "3", none⟩, .mark ",",
      .word "const", .word "ptr", .operator .less, .word "ptr", .operator .less,
      .identifier "Point", .operator .bitAnd, .word "const"] ++
        [.operator .rightShift, .operator .greater]) :=
    .keep (.keep (.keep (.keep (.keep (.keep (.keep (.keep (.keep (.keep (.keep (.keep
      (.join (.keep .nil)))))))))))))
  exact typeName_of_denotes harray (Session.tidy_ofTokens _) hjoins (spells_token 1 _) rfl

end Parser

end SinFrontend
