import SinFrontend.Proofs.Lexing.Words

/-!
# Layouts of tokens

Tokens can be laid out as a text in many ways: between two of them stands white space, with any
comments behind it. Every layout is read back as the tokens that were laid out.

* `IsLexical`: the class and the text of a token that can be written down.
* `Layout`: a text in which tokens stand one after another.
* `ofText_of_layout`: reading a layout gives the tokens back.

A layout is read after its line ends are made uniform. That changes nothing in a token that can be
written down, and a separator remains one, so the tokens account for what is read.
-/

namespace SinFrontend

open Lexeme

/-! ## Tokens as they are written -/

/-- A token as it stands in a text: literals in quotes with their quotes, all others as they are. -/
def Token.Kind.spelling (kind : Token.Kind) (text : String) : List Char :=
  match kind with
  | .str => '"' :: (text.toList ++ ['"'])
  | .char => '\'' :: (text.toList ++ ['\''])
  | _ => text.toList

theorem Token.Kind.spelling_float (chars : List Char) :
    Token.Kind.float.spelling (String.ofList chars) = chars :=
  String.toList_ofList

theorem Token.Kind.spelling_punctuation (c : Char) :
    Token.Kind.punctuation.spelling (String.singleton c) = [c] :=
  String.toList_singleton c

/-- The class and the text of a token that can be written down. -/
inductive IsLexical : Token.Kind → String → Prop where
  | identifier {text : String} (word : IsIdentifier text) (free : Token.isReserved text = false)
      (notBool : text ≠ "true" ∧ text ≠ "false") : IsLexical .identifier text
  | keyword {text : String} (reserved : Token.isReserved text = true) : IsLexical .keyword text
  | bool {text : String} (value : text = "true" ∨ text = "false") : IsLexical .bool text
  | int {text : String} (some : text ≠ "") (digits : ∀ c ∈ text.toList, c.isDigit = true) :
      IsLexical .int text
  | float {c : Char} {more : List Char} (first : c.isDigit = true)
      (inside : ∀ d ∈ more, d.isDigit = true ∨ d = '.') (point : more.count '.' = 1) :
      IsLexical .float (String.ofList (c :: more))
  | str {text : String} (inside : IsEscaped '"' text.toList) (plain : '\r' ∉ text.toList) :
      IsLexical .str text
  | char {text : String} (some : text ≠ "") (inside : IsEscaped '\'' text.toList)
      (plain : '\r' ∉ text.toList) : IsLexical .char text
  | punctuation {c : Char} (mark : isPunctuation c = true) :
      IsLexical .punctuation (String.singleton c)
  | operator {op : Operator} (spelled : op ∈ Operator.spelled)
      (noWord : Token.isReserved op.symbol = false)
      (noMark : op ≠ .procOperator ∧ op ≠ .index) : IsLexical .operator op.symbol

/-- What separates two tokens: white space, with more white space and comments behind it. -/
def IsSeparator (gap : List Char) : Prop :=
  IsGap gap ∧ ∃ c ∈ gap.head?, isBlank c = true

/-- A text in which tokens stand one after another, with separators between them. -/
inductive Layout : List Token → List Char → Prop where
  | nil : Layout [] []
  | last (token : Token) : Layout [token] (token.kind.spelling token.text)
  | cons (token : Token) {next : Token} {more : List Token} {gap text : List Char}
      (separates : IsSeparator gap) (rest : Layout (next :: more) text) :
      Layout (token :: next :: more) (token.kind.spelling token.text ++ (gap ++ text))

/-! ## Spellings are lexemes -/

/-- The end of a text, or white space. -/
def EndsLexeme (rest : List Char) : Prop :=
  ∀ c ∈ rest.head?, isBlank c = true

variable {kind : Token.Kind} {text : String} {rest : List Char}

theorem EndsLexeme.stops (h : EndsLexeme rest) {p : Char → Bool}
    (hp : ∀ c, isBlank c = true → p c = false) : Stops p rest :=
  fun c hc => hp c (h c hc)

theorem endsLexeme_nil : EndsLexeme [] := by
  rintro c ⟨⟩

theorem IsSeparator.endsLexeme {gap : List Char} (h : IsSeparator gap) (rest : List Char) :
    EndsLexeme (gap ++ rest) := by
  obtain ⟨-, c, hc, hblank⟩ := h
  obtain ⟨gap, rfl⟩ := List.head?_eq_some_iff.mp hc
  rintro d ⟨⟩
  exact hblank

theorem not_of_isBlank {c : Char} (h : isBlank c = true) :
    continuesWord c = false ∧ continuesNumber c = false := by
  have hcases : c = ' ' ∨ c = '\t' ∨ c = '\r' ∨ c = '\n' := by
    simpa [isBlank, or_assoc] using h
  rcases hcases with rfl | rfl | rfl | rfl <;> decide

theorem isLexeme_word (h : IsIdentifier text) (hkind : Source.wordKind text = kind)
    (hrest : EndsLexeme rest) : IsLexeme kind text text.toList rest := by
  obtain ⟨c, more, htext, first, inside⟩ := h
  have hword := IsLexeme.word first inside (hrest.stops fun c hc => (not_of_isBlank hc).1)
  rwa [← htext, String.ofList_toList, hkind] at hword

/-- Reserved words and the names of truth values have the form of identifiers. -/
theorem isIdentifier_of_mem (h : text ∈ "true" :: "false" :: Token.keywords) :
    IsIdentifier text := by
  have hwords : ∀ word ∈ "true" :: "false" :: Token.keywords,
      word.toList.head?.any startsWord = true ∧ word.toList.tail.all continuesWord = true := by
    decide +kernel
  obtain ⟨hfirst, hinside⟩ := hwords text h
  obtain ⟨c, hc, hstarts⟩ := (Option.any_eq_true _ _).mp hfirst
  obtain ⟨more, hmore⟩ := List.head?_eq_some_iff.mp hc
  rw [hmore] at hinside
  exact ⟨c, more, hmore, hstarts, List.all_eq_true.mp hinside⟩

theorem isLexeme_number {c : Char} {more : List Char} (first : c.isDigit = true)
    (inside : ∀ d ∈ more, d.isDigit = true ∨ d = '.')
    (points : kind = .int ∧ (c :: more).count '.' = 0 ∨
      kind = .float ∧ (c :: more).count '.' = 1) (hrest : EndsLexeme rest) :
    IsLexeme kind (String.ofList (c :: more)) (c :: more) rest := by
  have hcontinues : ∀ d ∈ more, continuesNumber d = true := by
    intro d hd
    rcases inside d hd with hdigit | rfl
    · simp [continuesNumber, hdigit]
    · rfl
  have hnumber := IsLexeme.number first hcontinues
    (hrest.stops fun c hc => (not_of_isBlank hc).2) points
  have hfilter : (c :: more).filter (· != '_') = c :: more := by
    rw [List.filter_eq_self, List.forall_mem_cons]
    refine ⟨bne_iff_ne.mpr (ne_of_class first rfl), fun d hd => ?_⟩
    rcases inside d hd with hdigit | rfl
    · exact bne_iff_ne.mpr (ne_of_class hdigit rfl)
    · rfl
  rwa [hfilter] at hnumber

/-- No longer operator than the one in front of white space: it would have white space in it. -/
theorem isLongestOperator_symbol {op : Operator} (spelled : op ∈ Operator.spelled)
    (hrest : EndsLexeme rest) : IsLongestOperator op.symbol.toList rest := by
  refine ⟨isSymbol_iff.mpr ⟨op, spelled, rfl⟩, fun other hother hbegins => ?_⟩
  by_contra hlong
  cases rest with
  | nil =>
    rw [List.append_nil] at hbegins
    exact hlong hbegins.length_le
  | cons c rest =>
    have hmore : op.symbol.toList ++ [c] <+: other :=
      List.prefix_of_prefix_length_le (by simp) hbegins (by simp at hlong ⊢; omega)
    obtain ⟨longer, hlonger, rfl⟩ := isSymbol_iff.mp hother
    have hsolid : ∀ op ∈ Operator.spelled, op.symbol.toList.any isBlank = false := by
      decide +kernel
    have hblank := List.any_eq_false.mp (hsolid longer hlonger) c (hmore.subset (by simp))
    exact hblank (hrest c rfl)

theorem head_startsOperator : ∀ op ∈ Operator.spelled, Token.isReserved op.symbol = false →
    op ≠ .procOperator ∧ op ≠ .index →
      op.symbol.toList.head?.any startsOperator = true := by
  decide +kernel

/-- A token that can be written down is a lexeme in front of white space. -/
theorem isLexeme_spelling (h : IsLexical kind text) (hrest : EndsLexeme rest) :
    IsLexeme kind text (kind.spelling text) rest := by
  cases h with
  | identifier word free notBool =>
    exact isLexeme_word word (by simp [Source.wordKind, free, notBool]) hrest
  | keyword reserved =>
    have hword : text ∈ Token.keywords := List.contains_iff_mem.mp reserved
    exact isLexeme_word (isIdentifier_of_mem (by simp [hword]))
      (by simp [Source.wordKind, reserved]) hrest
  | bool value =>
    rcases value with rfl | rfl
    · exact isLexeme_word (isIdentifier_of_mem (by simp)) (by decide +kernel) hrest
    · exact isLexeme_word (isIdentifier_of_mem (by simp)) (by decide +kernel) hrest
  | int some digits =>
    obtain ⟨c, more, htext⟩ := List.exists_cons_of_ne_nil (l := text.toList) (by simpa using some)
    rw [htext] at digits
    obtain ⟨first, inside⟩ := List.forall_mem_cons.mp digits
    have hpoints : (c :: more).count '.' = 0 :=
      List.count_eq_zero.mpr fun hpoint => absurd (digits '.' hpoint) (by decide)
    have hint := isLexeme_number first (fun d hd => .inl (inside d hd)) (.inl ⟨rfl, hpoints⟩) hrest
    rwa [← htext, String.ofList_toList] at hint
  | @float c more first inside point =>
    have hpoints : (c :: more).count '.' = 1 := by
      rw [List.count_cons_of_ne (ne_of_class first rfl), point]
    rw [Token.Kind.spelling_float]
    exact isLexeme_number first inside (.inr ⟨rfl, hpoints⟩) hrest
  | str inside plain =>
    have hquoted : IsQuoted '"' text.toList _ rest := .closed inside
    have hstr := IsLexeme.str hquoted
    rwa [String.ofList_toList] at hstr
  | char some inside plain =>
    have hquoted : IsQuoted '\'' text.toList _ rest := .closed inside
    have hchar := IsLexeme.char hquoted
    rwa [if_neg (by simpa using some), String.ofList_toList] at hchar
  | @punctuation c mark =>
    rw [Token.Kind.spelling_punctuation]
    exact .punctuation mark
  | @operator op spelled noWord noMark =>
    have hoperator := IsLexeme.operator (head_startsOperator op spelled noWord noMark)
      (isLongestOperator_symbol spelled hrest)
    rwa [String.ofList_toList] at hoperator

/-- No operator begins like a comment. -/
theorem second_of_symbol : ∀ op ∈ Operator.spelled, op.symbol.toList.head? = some '/' →
    op.symbol.toList.tail.head? ≠ some '/' ∧ op.symbol.toList.tail.head? ≠ some '*' := by
  decide +kernel

/-- In front of white space, neither white space nor a comment begins with a lexeme. -/
theorem Lexeme.IsLexeme.not_startsGap {lexeme : List Char} (h : IsLexeme kind text lexeme rest)
    (hrest : EndsLexeme rest) : startsGap (lexeme ++ rest) = false := by
  have hsolid : ∀ {c : Char} {p : Char → Bool}, p c = true → p ' ' = false → p '\t' = false →
      p '\r' = false → p '\n' = false → isBlank c = false := by
    intro c p hc hspace htab hreturn hnewline
    simp [isBlank, ne_of_class hc, *]
  cases h with
  | word first => exact (startsGap_cons (ne_of_class first rfl)).trans (hsolid first rfl rfl rfl rfl)
  | number first =>
    exact (startsGap_cons (ne_of_class first rfl)).trans (hsolid first rfl rfl rfl rfl)
  | str quoted | char quoted =>
    obtain ⟨more, rfl⟩ := quoted.exists_cons
    exact startsGap_cons (by decide)
  | punctuation mark =>
    exact (startsGap_cons (ne_of_class mark rfl)).trans (hsolid mark rfl rfl rfl rfl)
  | operator first longest =>
    obtain ⟨op, hop, rfl⟩ := isSymbol_iff.mp longest.spells
    have hsecond := second_of_symbol op hop
    obtain ⟨c, more, hsymbol⟩ : ∃ c more, op.symbol.toList = c :: more := by
      cases hsymbol : op.symbol.toList with
      | nil => rw [hsymbol] at first; cases first
      | cons c more => exact ⟨c, more, rfl⟩
    rw [hsymbol] at first hsecond ⊢
    by_cases hslash : c = '/'
    · subst hslash
      refine startsGap_slash fun d hd => ?_
      cases more with
      | nil => exact ⟨ne_of_class (hrest d hd) rfl, ne_of_class (hrest d hd) rfl⟩
      | cons =>
        obtain ⟨hline, hblock⟩ := hsecond rfl
        exact ⟨fun hc => hline (hc ▸ hd), fun hc => hblock (hc ▸ hd)⟩
    · exact (startsGap_cons hslash).trans (hsolid (p := startsOperator) first rfl rfl rfl rfl)

/-- No carriage return stands in a token that can be written down. -/
theorem return_notMem_spelling (h : IsLexical kind text) : '\r' ∉ kind.spelling text := by
  have hword : IsIdentifier text → '\r' ∉ text.toList := by
    rintro ⟨c, more, htext, first, inside⟩ hmem
    rw [htext, List.mem_cons] at hmem
    rcases hmem with rfl | hmem
    · cases first
    · cases inside _ hmem
  cases h with
  | identifier word => exact hword word
  | keyword reserved =>
    exact hword (isIdentifier_of_mem (by simp [List.contains_iff_mem.mp reserved]))
  | bool value =>
    exact hword (isIdentifier_of_mem (by rcases value with rfl | rfl <;> simp))
  | int some digits => exact fun hmem => absurd (digits _ hmem) (by decide)
  | @float c more first inside =>
    rw [Token.Kind.spelling_float, List.mem_cons]
    rintro (rfl | hmem)
    · cases first
    · exact absurd (inside _ hmem) (by decide)
  | str inside plain | char some inside plain => simpa [Token.Kind.spelling] using plain
  | @punctuation c mark =>
    rw [Token.Kind.spelling_punctuation, List.mem_singleton]
    exact (ne_of_class mark rfl).symm
  | @operator op spelled =>
    have hsymbols : ∀ op ∈ Operator.spelled, '\r' ∉ op.symbol.toList := by decide +kernel
    exact hsymbols op spelled

/-! ## Uniform line ends -/

namespace Source

theorem uniformLineEnds_cons (c : Char) (chars : List Char) :
    uniformLineEnds (c :: chars) =
      if c = '\r' ∧ chars.head? = some '\n' then uniformLineEnds chars
      else c :: uniformLineEnds chars := by
  split
  next h =>
    obtain ⟨rfl, hnewline⟩ := h
    obtain ⟨more, rfl⟩ := List.head?_eq_some_iff.mp hnewline
    simp [uniformLineEnds]
  next h =>
    rw [uniformLineEnds]
    rintro more rfl rfl
    exact h ⟨rfl, rfl⟩

theorem uniformLineEnds_cons_of_ne {c : Char} {chars : List Char} (h : c ≠ '\r') :
    uniformLineEnds (c :: chars) = c :: uniformLineEnds chars := by
  rw [uniformLineEnds_cons, if_neg fun hreturn => h hreturn.1]

/-- A piece without a carriage return stays as it is. -/
theorem uniformLineEnds_append {piece : List Char} (h : '\r' ∉ piece) (chars : List Char) :
    uniformLineEnds (piece ++ chars) = piece ++ uniformLineEnds chars := by
  induction piece with
  | nil => rfl
  | cons c piece ih =>
    rw [List.mem_cons, not_or] at h
    rw [List.cons_append, uniformLineEnds_cons_of_ne (Ne.symm h.1), ih h.2, List.cons_append]

/-- A line comment keeps its form. -/
theorem uniformLineEnds_lineBody {body : List Char} (inside : '\n' ∉ body) (chars : List Char) :
    ∃ body', '\n' ∉ body' ∧
      uniformLineEnds (body ++ '\n' :: chars) = body' ++ '\n' :: uniformLineEnds chars := by
  induction body with
  | nil => exact ⟨[], by simp, uniformLineEnds_cons_of_ne (by decide)⟩
  | cons c body ih =>
    rw [List.mem_cons, not_or] at inside
    obtain ⟨body', inside', huniform⟩ := ih inside.2
    rw [List.cons_append, uniformLineEnds_cons]
    split
    · exact ⟨body', inside', huniform⟩
    · exact ⟨c :: body', by simp [inside.1, inside'], by simp [huniform]⟩

/-- A block comment keeps its form: the two characters of its end are not brought together. -/
theorem uniformLineEnds_blockBody {body : List Char} (inside : IsBlockBody body)
    (chars : List Char) :
    ∃ body', IsBlockBody body' ∧ (body'.head? = some '/' → body.head? = some '/') ∧
      uniformLineEnds (body ++ '*' :: '/' :: chars) =
        body' ++ '*' :: '/' :: uniformLineEnds chars := by
  induction body with
  | nil =>
    refine ⟨[], inside, id, ?_⟩
    exact uniformLineEnds_append (show '\r' ∉ ['*', '/'] by decide) chars
  | cons c body ih =>
    obtain ⟨hfirst, hmore⟩ := isBlockBody_cons.mp inside
    obtain ⟨body', inside', hhead, huniform⟩ := ih hmore
    rw [List.cons_append, uniformLineEnds_cons]
    split
    next hreturn =>
      refine ⟨body', inside', fun hslash => ?_, huniform⟩
      have hnewline := hreturn.2
      cases body <;> simp_all
    next =>
      refine ⟨c :: body', isBlockBody_cons.mpr ⟨fun h => hfirst (h.imp_right hhead), inside'⟩,
        id, ?_⟩
      rw [huniform, List.cons_append]

/-- A gap in front of something other than a newline stays a gap. A separator stays one, too. -/
theorem uniformLineEnds_gap {gap chars : List Char} (h : IsGap gap)
    (hchars : chars.head? ≠ some '\n') :
    ∃ gap', IsGap gap' ∧ (IsSeparator gap → IsSeparator gap') ∧
      uniformLineEnds (gap ++ chars) = gap' ++ uniformLineEnds chars := by
  induction h with
  | nil => exact ⟨[], .nil, id, rfl⟩
  | @append piece gap first more ih =>
    obtain ⟨gap', hgap', hseparator, huniform⟩ := ih
    cases first with
    | @blank c blank =>
      rw [List.append_assoc]
      change ∃ gap', _ ∧ _ ∧ uniformLineEnds (c :: (gap ++ chars)) = _
      rw [uniformLineEnds_cons]
      split
      next hreturn =>
        refine ⟨gap', hgap', fun _ => hseparator ⟨more, '\n', ?_, rfl⟩, huniform⟩
        have hnewline := hreturn.2
        cases gap <;> simp_all
      next =>
        refine ⟨c :: gap', .append (.blank blank) hgap',
          fun _ => ⟨.append (.blank blank) hgap', c, rfl, blank⟩, ?_⟩
        rw [huniform, List.cons_append]
    | @lineComment body inside =>
      obtain ⟨body', inside', hbody⟩ := uniformLineEnds_lineBody inside (gap ++ chars)
      refine ⟨'/' :: '/' :: (body' ++ ['\n']) ++ gap', .append (.lineComment inside') hgap',
        fun h => ?_, ?_⟩
      · obtain ⟨-, c, ⟨⟩, ⟨⟩⟩ := h
      · have hall := uniformLineEnds_append (show '\r' ∉ ['/', '/'] by decide)
          (body ++ '\n' :: (gap ++ chars))
        simpa [hbody, huniform] using hall
    | @blockComment body inside =>
      obtain ⟨body', inside', -, hbody⟩ := uniformLineEnds_blockBody inside (gap ++ chars)
      refine ⟨'/' :: '*' :: (body' ++ ['*', '/']) ++ gap', .append (.blockComment inside') hgap',
        fun h => ?_, ?_⟩
      · obtain ⟨-, c, ⟨⟩, ⟨⟩⟩ := h
      · have hall := uniformLineEnds_append (show '\r' ∉ ['/', '*'] by decide)
          (body ++ '*' :: '/' :: (gap ++ chars))
        simpa [hbody, huniform] using hall

end Source

/-! ## Reading a layout -/

variable {tokens : List Token} {chars : List Char}

/-- A layout with something in it begins with the first character of a lexeme. -/
theorem Layout.not_startsGap {token : Token} (h : Layout (token :: tokens) chars)
    (hlexical : IsLexical token.kind token.text) :
    startsGap chars = false ∧ chars.head? ≠ some '\n' := by
  have hstarts : startsGap chars = false := by
    cases h with
    | last =>
      simpa using (isLexeme_spelling hlexical endsLexeme_nil).not_startsGap endsLexeme_nil
    | cons _ separates rest =>
      exact (isLexeme_spelling hlexical (separates.endsLexeme _)).not_startsGap
        (separates.endsLexeme _)
  refine ⟨hstarts, fun hnewline => ?_⟩
  obtain ⟨more, rfl⟩ := List.head?_eq_some_iff.mp hnewline
  cases hstarts

/-- Behind a gap, a token that can be written down is accounted for by its spelling. -/
theorem accounts_spelling {token : Token} (before : List Char) {gap rest : List Char}
    {read : List Token} (hlexical : IsLexical token.kind token.text) (hgap : IsGap gap) (hrest : EndsLexeme rest)
    (h : Accounts (before ++ gap ++ token.kind.spelling token.text) rest read) :
    Accounts before (gap ++ (token.kind.spelling token.text ++ rest))
      (⟨token.kind, token.text, lineAfter (before ++ gap)⟩ :: read) :=
  have hreads := isLexeme_spelling hlexical hrest
  .token hgap (hreads.not_startsGap hrest) hreads h

theorem sameLexeme_at (token : Token) (line : ℕ) :
    token.sameLexeme ⟨token.kind, token.text, line⟩ = true := by
  simp [Token.sameLexeme, Token.hasForm]

/-- Behind any gap, tokens that read the same account for the layout of given ones. -/
theorem Layout.accounts (h : Layout tokens chars)
    (hlexical : ∀ token ∈ tokens, IsLexical token.kind token.text) (before : List Char)
    {gap : List Char} (hgap : IsGap gap) :
    ∃ read line, List.Forall₂ (fun token again => token.sameLexeme again = true) tokens read ∧
      Accounts before (gap ++ Source.uniformLineEnds chars) (read ++ [Token.eof line]) := by
  induction h generalizing before gap with
  | nil =>
    refine ⟨[], lineAfter (before ++ gap), .nil, ?_⟩
    rw [Source.uniformLineEnds, List.append_nil]
    exact .done (.inl hgap)
  | last token =>
    have htoken := hlexical token (by simp)
    have huniform := Source.uniformLineEnds_append (return_notMem_spelling htoken) []
    rw [List.append_nil] at huniform
    have haccounts := accounts_spelling before htoken hgap endsLexeme_nil (.done (.inl .nil))
    rw [huniform]
    exact ⟨[_], _, .cons (sameLexeme_at token _) .nil, haccounts⟩
  | @cons token next more gap' text separates rest ih =>
    have htoken := hlexical token (by simp)
    have hnext := rest.not_startsGap (hlexical next (by simp))
    obtain ⟨separator, -, hseparator, huniform⟩ :=
      Source.uniformLineEnds_gap separates.1 hnext.2
    obtain ⟨read, line, hsame, haccounts⟩ :=
      ih (fun token hmem => hlexical token (by simp [hmem]))
        (before ++ gap ++ token.kind.spelling token.text) (hseparator separates).1
    have hmore := accounts_spelling before htoken hgap ((hseparator separates).endsLexeme _)
      haccounts
    rw [← huniform, ← Source.uniformLineEnds_append (return_notMem_spelling htoken)] at hmore
    exact ⟨_ :: read, line, .cons (sameLexeme_at token _) hsame, hmore⟩

/-- Whatever its layout, a text is read back as the tokens that were laid out in it, closed by the
    end of input. -/
theorem ofText_of_layout (tokens : List Token) (text : String)
    (hlexical : ∀ token ∈ tokens, IsLexical token.kind token.text)
    (hlayout : Layout tokens text.toList) :
    ∃ read line, Token.ofText text = .ok (read ++ [Token.eof line]) ∧
      List.Forall₂ (fun token again => token.sameLexeme again = true) tokens read := by
  obtain ⟨read, line, hsame, haccounts⟩ := hlayout.accounts hlexical [] .nil
  exact ⟨read, line, Source.tokens_of_accounts haccounts rfl rfl, hsame⟩

/-- A text with comments of both kinds, a carriage return in one, and an escaped quote. -/
theorem ofText_of_layout_comments :
    ∃ read line, Token.ofText "x /= // a\r\n \"\\\"\"\t/**/1.5" = .ok (read ++ [Token.eof line]) ∧
      List.Forall₂ (fun token again : Token => token.sameLexeme again = true)
        [⟨.identifier, "x", 0⟩, ⟨.operator, "/=", 0⟩, ⟨.str, "\\\"", 0⟩, ⟨.float, "1.5", 0⟩]
        read := by
  apply ofText_of_layout
  · have hx : IsLexical .identifier "x" :=
      .identifier ⟨'x', [], by decide, by decide, by simp⟩ (by decide) (by decide)
    have hdivide : IsLexical .operator Operator.divEqual.symbol :=
      .operator (by decide) (by decide) (by decide)
    have hquote : IsLexical .str "\\\"" := .str (.pair .nil) (by decide)
    have hnumber : IsLexical .float (String.ofList ['1', '.', '5']) :=
      .float (by decide) (by simp) (by decide)
    simp only [List.forall_mem_cons]
    exact ⟨hx, hdivide, hquote, hnumber, by simp⟩
  · have hcomment : IsGap ([' '] ++ ('/' :: '/' :: ([' ', 'a', '\r'] ++ ['\n']) ++ ([' '] ++ []))) :=
      .append (.blank rfl) (.append (.lineComment (by decide)) (.append (.blank rfl) .nil))
    have hblock : IsGap (['\t'] ++ ('/' :: '*' :: ([] ++ ['*', '/']) ++ [])) :=
      .append (.blank rfl) (.append (.blockComment (by simp [IsBlockBody])) .nil)
    have hlayout := Layout.cons ⟨.identifier, "x", 0⟩
      ⟨.append (.blank rfl) .nil, ' ', rfl, rfl⟩
      (Layout.cons ⟨.operator, "/=", 0⟩ ⟨hcomment, ' ', rfl, rfl⟩
        (Layout.cons ⟨.str, "\\\"", 0⟩ ⟨hblock, '\t', rfl, rfl⟩
          (Layout.last ⟨.float, "1.5", 0⟩)))
    simpa [Token.Kind.spelling] using hlayout

end SinFrontend
