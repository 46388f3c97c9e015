import SinFrontend.Proofs.Recovery
import SinFrontend.Proofs.RoundTrip.TypeTerm

/-!
# The elements of arrays and the targets of pointers

An array type without a length is read by looking at one token: a reserved word behind the opening
bracket begins the type of the elements, anything else is taken for a length. A pointer type is read
without this look.

* `typeNameRule_pointer`, `typeNameRule_array`: behind its bracket, either type is what a type in
  brackets is.
* `typeName_array_of_pointer`: `array` accepts what `ptr` does, and as much of it, where a reserved
  word comes first, and nowhere else.
-/

namespace SinFrontend.Parser

variable {base : Session} {passed inner rest : List Token} {word angle : Token}

/-! ## Types behind a bracket -/

theorem ofExpression_ne_unspecified (length : Expression) :
    ArrayLength.ofExpression length ≠ .unspecified := by
  unfold ArrayLength.ofExpression
  split
  · split <;> exact ArrayLength.noConfusion
  · exact ArrayLength.noConfusion

/-- A word that begins a type has no qualities before it. -/
theorem typeNameRule_of_word (parse : Descent) (hkind : word.kind = .keyword)
    (htype : PrimaryKind.isTypeKeyword word.text = true) (hrest : rest ≠ []) :
    typeNameRule parse (base.between passed (word :: rest)) =
      (do
        let type ← typeFrom parse .empty word
        noteVainQualities type word.line
        return type) (base.between (word :: passed) rest) := by
  have hnone : prefixedQualities (base.between passed (word :: rest)) =
      .ok .empty (base.between passed (word :: rest)) := by
    show ((word :: rest).takeWhile _).foldlM (fun qualities _ => addQuality qualities)
      QualitySet.empty (base.between passed (word :: rest)) = _
    rw [List.takeWhile_cons]
    simp [hkind, htype]
  have heof : word.kind ≠ .eof := by simp [hkind]
  simp only [typeNameRule, bind_run, currentLine_run, hnone, advance_run,
    Session.between_advance _ _ _ _ heof hrest, Session.between_previous, Session.between_current]

/-- An array type is read behind its word. -/
theorem typeNameRule_of_array (parse : Descent) (hword : word.isKeyword "array" = true)
    (hrest : rest ≠ []) :
    typeNameRule parse (base.between passed (word :: rest)) =
      (do
        let type ← arrayType parse .empty word.line
        noteVainQualities type word.line
        return type) (base.between (word :: passed) rest) := by
  have hkind := kind_of_isKeyword hword
  have htext : word.text = "array" := by
    simpa [Token.isKeyword, Token.hasForm, hkind] using hword
  have hpointer : word.isKeyword "ptr" = false := by simp [Token.isKeyword, Token.hasForm, htext]
  have href : word.hasForm .identifier "ref" = false := by simp [Token.hasForm, hkind]
  rw [typeNameRule_of_word parse hkind (by rw [htext]; decide) hrest, typeFrom,
    if_neg (by simp [hpointer]), if_neg (by simp [href]), if_pos hword]

section

variable (parse : Descent) (hangle : angle.isOperator "<" = true) (hinner : inner ≠ [])

include hangle hinner

theorem expectOpeningAngle_run (rule : String) (line : ℕ) :
    expectOpeningAngle rule line (base.between passed (angle :: inner)) =
      .ok () (base.between (angle :: passed) inner) := by
  have heof : angle.kind ≠ .eof := by simp [kind_of_isOperator hangle]
  simp [expectOpeningAngle, hangle, Session.between_advance _ _ _ _ heof hinner]

/-- A pointer type is read as its target is. -/
theorem typeNameRule_pointer (hword : word.isKeyword "ptr" = true) :
    typeNameRule parse (base.between passed (word :: angle :: inner)) =
      ((fun target => DataType.pointerTo target .empty) <$> enclosedType parse)
        (base.between (angle :: word :: passed) inner) := by
  have hkind := kind_of_isKeyword hword
  have htext : word.text = "ptr" := by
    simpa [Token.isKeyword, Token.hasForm, hkind] using hword
  rw [typeNameRule_of_word parse hkind (by rw [htext]; decide) (by simp), typeFrom, if_pos hword]
  simp only [indirectType, bind_run, expectOpeningAngle_run hangle hinner, map_run]
  cases enclosedType parse (base.between (angle :: word :: passed) inner) <;> rfl

/-- An array type is read as its elements are, if a reserved word is ahead. -/
theorem typeNameRule_array (hword : word.isKeyword "array" = true)
    (hahead : keywordAhead inner = true) :
    typeNameRule parse (base.between passed (word :: angle :: inner)) =
      ((fun element => DataType.arrayOf element .unspecified .empty) <$> enclosedType parse)
        (base.between (angle :: word :: passed) inner) := by
  obtain ⟨first, more, rfl⟩ := List.exists_cons_of_ne_nil hinner
  have hfirst : (first.kind == .keyword) = true := hahead
  rw [typeNameRule_of_array parse hword (by simp)]
  simp only [arrayType, bind_run, expectOpeningAngle_run hangle hinner, map_run, peek_run,
    Session.between_current, hfirst, if_true]
  cases enclosedType parse (base.between (angle :: word :: passed) (first :: more)) <;> rfl

/-- Behind any other word the length of an array is read, so that it is not left open. -/
theorem length_of_typeNameRule_array (hword : word.isKeyword "array" = true)
    (hahead : keywordAhead inner = false) {type : DataType} {later : Session}
    (h : typeNameRule parse (base.between passed (word :: angle :: inner)) = .ok type later) :
    type.length ≠ .unspecified := by
  obtain ⟨first, more, rfl⟩ := List.exists_cons_of_ne_nil hinner
  have hfirst : (first.kind == .keyword) = false := hahead
  rw [typeNameRule_of_array parse hword (by simp)] at h
  obtain ⟨array, s₁, harray, h⟩ := exists_of_bind h
  obtain ⟨-, s₂, -, h⟩ := exists_of_bind h
  cases h
  obtain ⟨_, s₃, hopen, harray⟩ := exists_of_bind harray
  rw [expectOpeningAngle_run hangle hinner] at hopen
  cases hopen
  obtain ⟨next, s₄, hpeek, harray⟩ := exists_of_bind harray
  cases hpeek
  rw [Session.between_current, hfirst, if_neg (by simp)] at harray
  obtain ⟨length, s₅, -, harray⟩ := exists_of_bind harray
  obtain ⟨taken, s₆, -, harray⟩ := exists_of_bind harray
  cases taken with
  | false =>
    obtain ⟨_, _, hrejected, -⟩ := exists_of_bind harray
    cases hrejected
  | true =>
    obtain ⟨element, s₇, -, harray⟩ := exists_of_bind harray
    cases harray
    exact ofExpression_ne_unspecified length

end

/-! ## What lies before a bracket plays no part -/

theorem trails_between (base base' : Session) (passed : List Token) :
    (base.between [angle] inner).Trails passed (base'.between (angle :: passed) inner) := by
  cases inner <;> rfl

/-- A type in brackets is read alike from all sessions over the same tokens, from the opening
    bracket on. -/
theorem enclosedType_between (base' : Session) (passed' : List Token) {steps : ℕ} {type : DataType}
    {later : Session} (hs : (base.between (angle :: passed) inner).Tidy)
    (h : enclosedType (descend steps) (base.between (angle :: passed) inner) = .ok type later) :
    ∃ later', enclosedType (descend steps) (base'.between (angle :: passed') inner) =
      .ok type later' ∧ later'.cursor.ahead = later.cursor.ahead := by
  have htidy : (base.between [angle] inner).Tidy := by
    refine ⟨?_, fun token hmem => hs.passed token ?_⟩
    · cases inner <;> exact hs.closed
    · cases inner <;> simp_all [Session.between, Cursor.between]
  have hready : 0 < (base.between [angle] inner).past + (base.between [angle] inner).left :=
    Nat.add_pos_left (by cases inner <;> exact Nat.one_pos) _
  have hagree (base' : Session) (before : List Token) :=
    enclosedType_proceed (Session.frame_trails before)
      (descend_agree_self (Session.frame_trails before) steps
        (Goal.typeName.rank (base.between [angle] inner).left + 1))
      ⟨trails_between base base' before, htidy, hready⟩ (Nat.lt_succ_self _)
  obtain ⟨alone, halone, htrails⟩ := Agree.exists_run (hagree base passed) h
  obtain ⟨later', hlater', htrails'⟩ := Agree.exists_run_right (hagree base' passed') halone
  refine ⟨later', hlater', ?_⟩
  rw [← (Session.frame_trails passed').ahead htrails', (Session.frame_trails passed).ahead htrails]

/-- Behind a word and its bracket a session is as tidy as before them. -/
theorem tidy_behind_angle (hword : word.kind ≠ .eof) (hangle : angle.kind ≠ .eof)
    (hs : (base.between passed (word :: angle :: inner)).Tidy) :
    inner ≠ [] ∧ (base.between (angle :: word :: passed) inner).Tidy := by
  have hnext : (base.between (word :: passed) (angle :: inner)).Tidy := by
    rw [← Session.between_advance _ _ _ _ hword (by simp)]
    exact Session.tidy_advance hs
  have hinner : inner ≠ [] := by
    obtain ⟨next, rest, hrest⟩ := hnext.exists_rest hangle
    rw [Session.between_rest] at hrest
    simp [hrest]
  refine ⟨hinner, ?_⟩
  rw [← Session.between_advance _ _ _ _ hangle hinner]
  exact Session.tidy_advance hnext

/-- Reading a type as part of a whole tree is reading it in any large number of steps. -/
theorem full_typeName_eq (hword : word.kind ≠ .eof)
    (hs : (base.between passed (word :: rest)).Tidy) (steps : ℕ)
    (hsteps : Goal.typeName.rank (base.between passed (word :: rest)).left ≤ steps + 1) :
    full .typeName (base.between passed (word :: rest)) =
      typeNameRule (descend steps) (base.between passed (word :: rest)) := by
  exact full_eq_descend .typeName hs (Session.ready_of_ahead rfl hword) hsteps

/-- Behind any other word than a reserved one, no array without a length is read. -/
theorem length_of_full_array (hangle : angle.isOperator "<" = true)
    (hword : word.isKeyword "array" = true) (hahead : keywordAhead inner = false) {t : Session}
    (ht : t.Tidy) (htokens : t.cursor.ahead = word :: angle :: inner) {type : DataType}
    {later : Session} (h : full .typeName t = .ok type later) : type.length ≠ .unspecified := by
  have hkind : word.kind ≠ .eof := by simp [kind_of_isKeyword hword]
  have hbracket : angle.kind ≠ .eof := by simp [kind_of_isOperator hangle]
  rw [← Session.between_self t, htokens] at ht h
  rw [full_typeName_eq hkind ht _ (Nat.le_succ _)] at h
  exact length_of_typeNameRule_array _ hangle (tidy_behind_angle hkind hbracket ht).1 hword hahead h

/-! ## Main result -/

/-- What `ptr` reads as its target, `array` reads as its elements, and leaves the same tokens, if a
    reserved word comes first behind the bracket. Nothing else begins the elements of an array
    whose length is left open. -/
theorem typeName_array_of_pointer {s t later : Session} {pointer array : Token} (hs : s.Tidy)
    (ht : t.Tidy) (hpointer : pointer.isKeyword "ptr" = true)
    (harray : array.isKeyword "array" = true) (hangle : angle.isOperator "<" = true)
    (hpointers : s.cursor.ahead = pointer :: angle :: inner)
    (harrays : t.cursor.ahead = array :: angle :: inner)
    {target : DataType} {qualities : QualitySet}
    (hread : full .typeName s = .ok (.pointerTo target qualities) later) :
    (keywordAhead inner = true → ∃ later',
      full .typeName t = .ok (.arrayOf target .unspecified qualities) later' ∧
      later'.cursor.ahead = later.cursor.ahead) ∧
    ∀ type later', full .typeName t = .ok type later' → type.length = .unspecified →
      keywordAhead inner = true := by
  have hword {word : Token} {text : String} (h : word.isKeyword text = true) :
      word.kind ≠ .eof := by simp [kind_of_isKeyword h]
  have hbracket : angle.kind ≠ .eof := by simp [kind_of_isOperator hangle]
  refine ⟨fun hahead => ?_, fun type later' hrun hopen => ?_⟩
  · rw [← Session.between_self s, hpointers] at hs hread
    rw [← Session.between_self t, harrays] at ht ⊢
    obtain ⟨hinner, hbehind⟩ := tidy_behind_angle (hword hpointer) hbracket hs
    -- Both types are read in a number of steps that is large enough for either.
    let steps := Goal.typeName.rank (s.between s.cursor.passed (pointer :: angle :: inner)).left +
      Goal.typeName.rank (t.between t.cursor.passed (array :: angle :: inner)).left
    rw [full_typeName_eq (hword hpointer) hs steps (by omega),
      typeNameRule_pointer _ hangle hinner hpointer] at hread
    rw [full_typeName_eq (hword harray) ht steps (by omega),
      typeNameRule_array _ hangle hinner harray hahead]
    obtain ⟨type, htype, hmake⟩ : ∃ type, enclosedType (descend steps)
        (s.between (angle :: pointer :: s.cursor.passed) inner) = .ok type later ∧
          DataType.pointerTo type .empty = .pointerTo target qualities := by
      rw [map_run] at hread
      generalize enclosedType (descend steps)
        (s.between (angle :: pointer :: s.cursor.passed) inner) = outcome at hread
      cases outcome with
      | ok type later' =>
        injection hread with hmake hlater
        exact ⟨type, by rw [hlater], hmake⟩
      | error failure later' => cases hread
    have hcontained : [type] = [target] := congrArg DataType.contained hmake
    have hqualities : QualitySet.empty = qualities := congrArg DataType.qualities hmake
    obtain rfl : type = target := by simpa using hcontained
    obtain ⟨later', hlater', hsame⟩ :=
      enclosedType_between t (array :: t.cursor.passed) hbehind htype
    exact ⟨later', by rw [map_run, hlater', hqualities], hsame⟩
  · by_contra hahead
    exact length_of_full_array hangle harray (by simpa using hahead) ht harrays hrun hopen

/-- The plain text of a type is read back. -/
theorem full_typeName_print {type : TypeTerm} (hwf : type.WellFormed) {s : Session} (hs : s.Tidy)
    {tokens : List Token} (hspells : Spells type.print (word :: tokens)) (hword : word.kind ≠ .eof)
    {next : Token} (hahead : s.cursor.ahead = word :: (tokens ++ next :: rest)) :
    ∃ later, full .typeName s = .ok type.tree later ∧ later.cursor.ahead = next :: rest := by
  obtain ⟨base, hread⟩ := takes_type type hwf hspells next rest s s.cursor.passed
  have hsession : s.between s.cursor.passed (word :: tokens ++ next :: rest) = s := by
    rw [List.cons_append, ← hahead, Session.between_self]
  rw [hsession] at hread
  have hreads : Reads .typeName s type.tree
      (base.between ((word :: tokens).reverse ++ s.cursor.passed) (next :: rest)) := hread
  exact ⟨_, hreads.full hs (Session.ready_of_ahead hahead hword), rfl⟩

/-- A struct behind a quality, which is a reserved word. -/
theorem typeName_array_of_pointer_const :
    let inner : List Token := [⟨.keyword, "const", 1⟩, ⟨.identifier, "Point", 1⟩,
      ⟨.operator, ">", 1⟩, .eof 1]
    let pointers := Session.ofTokens (⟨.keyword, "ptr", 1⟩ :: ⟨.operator, "<", 1⟩ :: inner)
    let arrays := Session.ofTokens (⟨.keyword, "array", 1⟩ :: ⟨.operator, "<", 1⟩ :: inner)
    let element := DataType.structNamed "Point" { const := true }
    keywordAhead inner = true ∧ pointers.Tidy ∧ arrays.Tidy ∧
    (∃ later, full .typeName pointers = .ok (.pointerTo element .empty) later) ∧
    ∃ later', full .typeName arrays = .ok (.arrayOf element .unspecified .empty) later' ∧
      later'.cursor.ahead = [.eof 1] := by
  intro inner pointers arrays element
  let term : TypeTerm :=
    .pointer .none (.mk (.struct ⟨[.const], { const := true }, rfl⟩ "Point") .none)
  have hwf : term.WellFormed := ⟨rfl, rfl⟩
  have hs : pointers.Tidy := Session.tidy_ofTokens _
  have ht : arrays.Tidy := Session.tidy_ofTokens _
  obtain ⟨later, hread, hbehind⟩ := full_typeName_print hwf hs (spells_token 1 _) (by decide) rfl
  obtain ⟨later', hlater', hahead⟩ := (typeName_array_of_pointer hs ht (by decide) (by decide)
    (by decide) rfl rfl hread).1 rfl
  exact ⟨rfl, hs, ht, ⟨_, hread⟩, later', hlater', hahead.trans hbehind⟩

/-- A pointer to a struct is read, an array of structs is not. -/
theorem not_typeName_array_of_pointer :
    ¬ ∀ (inner : List Token) (target : DataType) (later : Session),
      full .typeName (.ofTokens (⟨.keyword, "ptr", 1⟩ :: ⟨.operator, "<", 1⟩ :: inner)) =
        .ok (.pointerTo target .empty) later →
      ∃ later', full .typeName
          (.ofTokens (⟨.keyword, "array", 1⟩ :: ⟨.operator, "<", 1⟩ :: inner)) =
        .ok (.arrayOf target .unspecified .empty) later' ∧
        later'.cursor.ahead = later.cursor.ahead := by
  intro h
  let term : TypeTerm := .pointer .none (.mk (.struct .none "Point") .none)
  have hwf : term.WellFormed := ⟨rfl, rfl⟩
  let inner : List Token := [⟨.identifier, "Point", 1⟩, ⟨.operator, ">", 1⟩,
    ⟨.identifier, "x", 1⟩, ⟨.punctuation, ";", 1⟩]
  obtain ⟨later, hread, -⟩ := full_typeName_print hwf
    (Session.tidy_ofTokens (⟨.keyword, "ptr", 1⟩ :: ⟨.operator, "<", 1⟩ :: inner))
    (spells_token 1 _) (by decide) rfl
  obtain ⟨later', hlater', -⟩ := h inner (.structNamed "Point" .empty) later hread
  exact length_of_full_array rfl rfl rfl (Session.tidy_ofTokens _) rfl hlater' rfl

end SinFrontend.Parser
