import Mathlib.Data.List.Basic
import SinFrontend.Proofs.Cutting
import SinFrontend.Token.Source

/-!
# Lexemes of each class

What a lexeme of each class looks like, how far it reaches, and which text its token keeps.

* `IsLexeme`: a piece of a text is a lexeme of a class in front of the rest of the text. Words and
  numbers reach as far as their characters go, a quoted literal to its closing quote, and an
  operator is the longest one that the text starts with.
* `Source.readLexeme_sound`: what is read is a lexeme, and its token keeps the text of that lexeme.
* `Source.readLexeme_complete`: a lexeme in front of a text is read.
-/

namespace SinFrontend

namespace Lexeme

/-! ## Quoted literals -/

/-- The inside of a quoted literal: every quote in it is escaped, and no backslash is left without
    the character that it escapes. -/
inductive IsEscaped (quote : Char) : List Char → Prop where
  | nil : IsEscaped quote []
  | char {c : Char} {rest : List Char} (inside : c ≠ quote) (plain : c ≠ '\\')
      (more : IsEscaped quote rest) : IsEscaped quote (c :: rest)
  | pair {c : Char} {rest : List Char} (more : IsEscaped quote rest) :
      IsEscaped quote ('\\' :: c :: rest)

/-- A quoted literal in front of the rest of a text, and what is inside its quotes. Only at the end
    of the text may the closing quote be missing, and then a backslash may be left over. -/
inductive IsQuoted (quote : Char) : List Char → List Char → List Char → Prop where
  | closed {body rest : List Char} (inside : IsEscaped quote body) :
      IsQuoted quote body (quote :: (body ++ [quote])) rest
  | unclosed {body : List Char} (inside : IsEscaped quote body) :
      IsQuoted quote body (quote :: body) []
  | dangling {body : List Char} (inside : IsEscaped quote body) :
      IsQuoted quote (body ++ ['\\']) (quote :: (body ++ ['\\'])) []

variable {quote c : Char} {body chars rest lexeme symbol : List Char}

theorem splitQuoted_of_escaped (inside : IsEscaped quote body) (chars : List Char) :
    splitQuoted quote (body ++ chars) =
      (body ++ (splitQuoted quote chars).1, (splitQuoted quote chars).2) := by
  induction inside with
  | nil => rfl
  | @char c more hinside hplain _ ih =>
    rw [List.cons_append, splitQuoted, if_neg (by simpa using hinside), ih]
    · rfl
    · rintro d rest rfl
      exact absurd rfl hplain
  | pair _ ih => simp [splitQuoted, ih]

theorem splitQuoted_quote (hquote : quote ≠ '\\') :
    splitQuoted quote (quote :: rest) = ([], quote :: rest) := by
  rw [splitQuoted, if_pos (by simp)]
  rintro d more rfl
  exact absurd rfl hquote

theorem splitQuoted_backslash (hquote : quote ≠ '\\') :
    splitQuoted quote ['\\'] = (['\\'], []) := by
  simp [splitQuoted, hquote.symm]

/-- A quoted literal is split behind its inside. -/
theorem IsQuoted.split (hquote : quote ≠ '\\') (h : IsQuoted quote body lexeme rest) :
    ∃ closing, lexeme = quote :: (body ++ closing) ∧ closing = (closing ++ rest).take 1 ∧
      splitQuoted quote (body ++ (closing ++ rest)) = (body, closing ++ rest) := by
  cases h with
  | closed inside =>
    refine ⟨[quote], rfl, rfl, ?_⟩
    simp [splitQuoted_of_escaped inside, splitQuoted_quote hquote]
  | unclosed inside =>
    refine ⟨[], by simp, rfl, ?_⟩
    simpa [splitQuoted] using splitQuoted_of_escaped inside []
  | dangling inside =>
    refine ⟨[], by simp, rfl, ?_⟩
    simp [splitQuoted_of_escaped inside, splitQuoted_backslash hquote]

theorem IsQuoted.exists_cons (h : IsQuoted quote body lexeme rest) :
    ∃ more, lexeme = quote :: more := by
  cases h <;> exact ⟨_, rfl⟩

theorem IsQuoted.char (inside : c ≠ quote) (plain : c ≠ '\\')
    (h : IsQuoted quote body (quote :: lexeme) rest) :
    IsQuoted quote (c :: body) (quote :: c :: lexeme) rest := by
  cases h with
  | closed more => exact .closed (.char inside plain more)
  | unclosed more => exact .unclosed (.char inside plain more)
  | dangling more => exact .dangling (.char inside plain more)

theorem IsQuoted.pair (h : IsQuoted quote body (quote :: lexeme) rest) :
    IsQuoted quote ('\\' :: c :: body) (quote :: '\\' :: c :: lexeme) rest := by
  cases h with
  | closed more => exact .closed (.pair more)
  | unclosed more => exact .unclosed (.pair more)
  | dangling more => exact .dangling (.pair more)

/-- Whatever follows an opening quote begins with the inside of a literal. -/
theorem isQuoted_splitQuoted (quote : Char) (chars : List Char) :
    IsQuoted quote (splitQuoted quote chars).1
      (quote :: ((splitQuoted quote chars).1 ++ (splitQuoted quote chars).2.take 1))
      ((splitQuoted quote chars).2.drop 1) := by
  fun_induction splitQuoted quote chars with
  | case1 c rest body after hsplit ih => exact .pair (by rwa [hsplit] at ih)
  | case2 c rest hpair hc =>
    obtain rfl : c = quote := by simpa using hc
    exact .closed .nil
  | case3 c rest hpair hc body after hsplit ih =>
    rw [hsplit] at ih
    have hinside : c ≠ quote := by simpa using hc
    by_cases hplain : c = '\\'
    · subst hplain
      cases rest with
      | nil =>
        obtain ⟨rfl, rfl⟩ : [] = body ∧ [] = after := by simpa [splitQuoted] using hsplit
        exact .dangling .nil
      | cons d rest => exact absurd rfl (hpair d rest rfl)
    · exact .char hinside hplain ih
  | case4 => exact .unclosed .nil

/-! ## Operators -/

/-- An operator at the beginning of a text: no longer operator begins there. -/
structure IsLongestOperator (symbol rest : List Char) : Prop where
  spells : Operator.isSymbol (String.ofList symbol) = true
  longest : ∀ other, Operator.isSymbol (String.ofList other) = true →
    other <+: symbol ++ rest → other.length ≤ symbol.length

theorem startsSymbol_iff :
    Operator.startsSymbol (String.ofList symbol) = true ↔
      ∃ op ∈ Operator.spelled, symbol <+: op.symbol.toList := by
  simp [Operator.startsSymbol]

theorem isSymbol_iff :
    Operator.isSymbol (String.ofList symbol) = true ↔
      ∃ op ∈ Operator.spelled, op.symbol.toList = symbol := by
  simp [Operator.isSymbol, Operator.ofSymbol?, ← String.toList_inj]

theorem startsSymbol_of_isSymbol (h : Operator.isSymbol (String.ofList symbol) = true) :
    Operator.startsSymbol (String.ofList symbol) = true := by
  obtain ⟨op, hop, rfl⟩ := isSymbol_iff.mp h
  exact startsSymbol_iff.mpr ⟨op, hop, List.prefix_rfl⟩

theorem startsSymbol_of_prefix {shorter : List Char} (hbegins : shorter <+: symbol)
    (h : Operator.startsSymbol (String.ofList symbol) = true) :
    Operator.startsSymbol (String.ofList shorter) = true := by
  obtain ⟨op, hop, hstarts⟩ := startsSymbol_iff.mp h
  exact startsSymbol_iff.mpr ⟨op, hop, hbegins.trans hstarts⟩

/-- Between an operator and a longer one that starts with it there are only operators. -/
theorem isSymbol_take_succ : ∀ op ∈ Operator.spelled, ∀ longer ∈ Operator.spelled,
    op.symbol.toList.head?.any startsOperator = true → op.symbol.toList <+: longer.symbol.toList →
    Operator.isSymbol (String.ofList (longer.symbol.toList.take (op.symbol.toList.length + 1))) =
      true := by
  decide +kernel

/-- What some operator starts with is split off. -/
theorem splitOperatorAfter_append_of_starts {added : List Char} (symbol chars : List Char)
    (h : Operator.startsSymbol (String.ofList (symbol ++ added)) = true) :
    splitOperatorAfter symbol (added ++ chars) =
      (added ++ (splitOperatorAfter (symbol ++ added) chars).1,
        (splitOperatorAfter (symbol ++ added) chars).2) := by
  induction added generalizing symbol with
  | nil => simp
  | cons c added ih =>
    have hmore : symbol ++ c :: added = symbol ++ [c] ++ added := by simp
    rw [hmore] at h ⊢
    have hfirst := startsSymbol_of_prefix (List.prefix_append (symbol ++ [c]) added) h
    rw [List.cons_append, splitOperatorAfter, if_pos hfirst, ih _ h]
    rfl

/-- No more than that: what some operator starts with is no longer than what is split off. -/
theorem length_le_splitOperatorAfter {other : List Char} (symbol chars : List Char)
    (hbegins : other <+: chars)
    (h : Operator.startsSymbol (String.ofList (symbol ++ other)) = true) :
    other.length ≤ (splitOperatorAfter symbol chars).1.length := by
  obtain ⟨more, rfl⟩ := hbegins
  rw [splitOperatorAfter_append_of_starts symbol more h]
  simp

theorem IsLongestOperator.split (first : symbol.head?.any startsOperator = true)
    (h : IsLongestOperator symbol rest) : splitOperator (symbol ++ rest) = (symbol, rest) := by
  have hstop : splitOperatorAfter symbol rest = ([], rest) := by
    cases rest with
    | nil => rfl
    | cons c rest =>
      refine if_neg fun hstarts => ?_
      obtain ⟨op, hop, rfl⟩ := isSymbol_iff.mp h.spells
      obtain ⟨longer, hlonger, htake⟩ := startsSymbol_iff.mp hstarts
      have hsymbol := isSymbol_take_succ op hop longer hlonger first
        ((List.prefix_append _ _).trans htake)
      have hsame : longer.symbol.toList.take (op.symbol.toList.length + 1) =
          op.symbol.toList ++ [c] := by
        simpa using (List.prefix_iff_eq_take.mp htake).symm
      rw [hsame] at hsymbol
      have hlength := h.longest _ hsymbol (by simp)
      rw [List.length_append, List.length_singleton] at hlength
      omega
  have hsplit := splitOperatorAfter_append_of_starts [] rest (startsSymbol_of_isSymbol h.spells)
  simpa [splitOperator, hstop] using hsplit

theorem isLongestOperator_splitOperator
    (h : Operator.isSymbol (String.ofList (splitOperator chars).1) = true) :
    IsLongestOperator (splitOperator chars).1 (splitOperator chars).2 := by
  refine ⟨h, fun other hother hbegins => ?_⟩
  rw [splitOperator_append] at hbegins
  exact length_le_splitOperatorAfter [] chars hbegins (startsSymbol_of_isSymbol hother)

/-! ## First characters -/

theorem isDigit_of_startsWord (h : startsWord c = true) : c.isDigit = false := by
  rw [startsWord, Bool.or_eq_true, beq_iff_eq] at h
  rcases h with rfl | h
  · decide
  · unfold Char.isAlpha Char.isUpper Char.isLower at h
    unfold Char.isDigit
    simp at *
    grind

/-- A character of a class is none that the class does not contain. -/
theorem ne_of_class {p : Char → Bool} (h : p c = true) {d : Char} (hd : p d = false) : c ≠ d := by
  rintro rfl
  rw [hd] at h
  cases h

theorem first_of_startsWord (h : startsWord c = true) : c ≠ '"' ∧ c ≠ '\'' :=
  ⟨ne_of_class h rfl, ne_of_class h rfl⟩

theorem first_of_isDigit (h : c.isDigit = true) :
    c ≠ '"' ∧ c ≠ '\'' ∧ startsWord c = false := by
  refine ⟨ne_of_class h rfl, ne_of_class h rfl, Bool.eq_false_iff.mpr fun hword => ?_⟩
  rw [isDigit_of_startsWord hword] at h
  cases h

theorem first_of_isPunctuation (h : isPunctuation c = true) :
    c ≠ '"' ∧ c ≠ '\'' ∧ startsWord c = false ∧ c.isDigit = false := by
  rw [isPunctuation, List.contains_iff_mem] at h
  revert c
  rw [← List.forall_iff_forall_mem]
  decide

theorem first_of_startsOperator (h : startsOperator c = true) :
    c ≠ '"' ∧ c ≠ '\'' ∧ startsWord c = false ∧ c.isDigit = false ∧ isPunctuation c = false := by
  rw [startsOperator, List.contains_iff_mem] at h
  revert c
  rw [← List.forall_iff_forall_mem]
  decide

/-! ## Lexemes -/

/-- A piece of a text is a lexeme in front of the rest of the text: the class and the text of its
    token, the lexeme itself, and the rest. -/
inductive IsLexeme : Token.Kind → String → List Char → List Char → Prop where
  | word {c : Char} {more rest : List Char} (first : startsWord c = true)
      (inside : ∀ d ∈ more, continuesWord d = true) (ends : Stops continuesWord rest) :
      IsLexeme (Source.wordKind (String.ofList (c :: more))) (String.ofList (c :: more))
        (c :: more) rest
  | number {kind : Token.Kind} {c : Char} {more rest : List Char} (first : c.isDigit = true)
      (inside : ∀ d ∈ more, continuesNumber d = true) (ends : Stops continuesNumber rest)
      (points : kind = .int ∧ (c :: more).count '.' = 0 ∨
        kind = .float ∧ (c :: more).count '.' = 1) :
      IsLexeme kind (String.ofList ((c :: more).filter (· != '_'))) (c :: more) rest
  | str {body lexeme rest : List Char} (quoted : IsQuoted '"' body lexeme rest) :
      IsLexeme .str (String.ofList body) lexeme rest
  | char {body lexeme rest : List Char} (quoted : IsQuoted '\'' body lexeme rest) :
      IsLexeme .char (if body = [] then "\\0" else String.ofList body) lexeme rest
  | punctuation {c : Char} {rest : List Char} (mark : isPunctuation c = true) :
      IsLexeme .punctuation (String.singleton c) [c] rest
  | operator {symbol rest : List Char} (first : symbol.head?.any startsOperator = true)
      (longest : IsLongestOperator symbol rest) :
      IsLexeme .operator (String.ofList symbol) symbol rest

theorem IsLexeme.exists_cons {kind : Token.Kind} {text : String}
    (h : IsLexeme kind text lexeme rest) : ∃ c more, lexeme = c :: more := by
  cases h with
  | str quoted | char quoted =>
    obtain ⟨more, rfl⟩ := quoted.exists_cons
    exact ⟨_, more, rfl⟩
  | operator first longest =>
    cases lexeme with
    | nil => cases first
    | cons c more => exact ⟨c, more, rfl⟩
  | _ => exact ⟨_, _, rfl⟩

theorem IsLexeme.kind_ne_eof {kind : Token.Kind} {text : String}
    (h : IsLexeme kind text lexeme rest) : kind ≠ .eof := by
  cases h with
  | word => unfold Source.wordKind; split <;> [skip; split] <;> simp
  | number _ _ _ points => rcases points with ⟨rfl, _⟩ | ⟨rfl, _⟩ <;> simp
  | _ => simp

end Lexeme

namespace Source

open Lexeme

variable {source after : Source} {c : Char} {chars lexeme rest : List Char} {token : Token}

/-- A quoted literal is read with its quotes. -/
theorem quotedToken_eq {kind : Token.Kind} {quote : Char} {emptyText : String} {body : List Char}
    (hquote : quote ≠ '\\') (h : IsQuoted quote body (quote :: lexeme) rest) :
    source.quotedToken kind quote emptyText (lexeme ++ rest) =
      (⟨kind, if body = [] then emptyText else String.ofList body, source.line⟩,
        source.passing (quote :: lexeme) rest) := by
  obtain ⟨closing, hlexeme, htake, hsplit⟩ := h.split hquote
  obtain rfl : lexeme = body ++ closing := by simpa using hlexeme
  have hdrop : (closing ++ rest).drop 1 = rest := by
    have hparts := List.take_append_drop 1 (closing ++ rest)
    rw [← htake] at hparts
    exact List.append_cancel_left hparts
  simp only [quotedToken, List.append_assoc, hsplit, hdrop, ← htake, List.isEmpty_iff]
  rfl

theorem isQuoted_quotedToken (kind : Token.Kind) (quote : Char) (emptyText : String)
    (source : Source) (chars : List Char) :
    ∃ body lexeme rest, IsQuoted quote body lexeme rest ∧ lexeme ++ rest = quote :: chars ∧
      source.quotedToken kind quote emptyText chars =
        (⟨kind, if body = [] then emptyText else String.ofList body, source.line⟩,
          source.passing lexeme rest) := by
  refine ⟨_, _, _, isQuoted_splitQuoted quote chars, ?_, ?_⟩
  · rw [List.cons_append, List.append_assoc, List.take_append_drop, splitQuoted_append]
  · simp [quotedToken]

theorem isLexeme_numberToken (hfirst : c.isDigit = true) (line : ℕ)
    (h : numberToken (splitNumber (c :: chars)).1 line = .ok token) :
    IsLexeme token.kind token.text (splitNumber (c :: chars)).1 (splitNumber (c :: chars)).2 ∧
      token.line = line := by
  have hcontinues : continuesNumber c = true := by simp [continuesNumber, hfirst]
  simp only [splitNumber, List.takeWhile_cons_of_pos hcontinues,
    List.dropWhile_cons_of_pos hcontinues] at h ⊢
  unfold numberToken at h
  split at h
  next hpoints =>
    cases h
    exact ⟨.number hfirst (fun d => List.mem_takeWhile_imp) (stops_dropWhile _ _)
      (.inl ⟨rfl, hpoints⟩), rfl⟩
  next hpoints =>
    cases h
    exact ⟨.number hfirst (fun d => List.mem_takeWhile_imp) (stops_dropWhile _ _)
      (.inr ⟨rfl, hpoints⟩), rfl⟩
  next => cases h

theorem isLexeme_splitWord (hfirst : startsWord c = true) (chars : List Char) :
    IsLexeme (wordKind (String.ofList (splitWord (c :: chars)).1))
      (String.ofList (splitWord (c :: chars)).1) (splitWord (c :: chars)).1
      (splitWord (c :: chars)).2 := by
  have hcontinues := continuesWord_of_startsWord hfirst
  simp only [splitWord, List.takeWhile_cons_of_pos hcontinues,
    List.dropWhile_cons_of_pos hcontinues]
  exact .word hfirst (fun d => List.mem_takeWhile_imp) (stops_dropWhile _ _)

theorem isLexeme_splitOperator (hfirst : startsOperator c = true)
    (hsymbol : Operator.isSymbol (String.ofList (splitOperator (c :: chars)).1) = true) :
    IsLexeme .operator (String.ofList (splitOperator (c :: chars)).1) (splitOperator (c :: chars)).1
      (splitOperator (c :: chars)).2 := by
  refine .operator ?_ (isLongestOperator_splitOperator hsymbol)
  have happend := splitOperator_append (c :: chars)
  have hpos := length_pos_of_isSymbol hsymbol
  cases hsplit : (splitOperator (c :: chars)).1 with
  | nil => simp [hsplit] at hpos
  | cons d more =>
    rw [hsplit] at happend
    obtain rfl : d = c := (List.cons.inj happend).1
    simpa using hfirst

/-- What is read in front of a text is a lexeme. -/
theorem readLexeme_sound (h : source.readLexeme c chars = (.ok token, after)) :
    ∃ lexeme rest, lexeme ++ rest = c :: chars ∧ IsLexeme token.kind token.text lexeme rest ∧
      token.line = source.line ∧ after = source.passing lexeme rest := by
  unfold readLexeme at h
  split at h
  next hquote =>
    obtain rfl : c = '"' := by simpa using hquote
    obtain ⟨body, lexeme, rest, hquoted, hchars, hread⟩ :=
      isQuoted_quotedToken .str '"' "" source chars
    rw [hread] at h
    cases h
    refine ⟨lexeme, rest, hchars, ?_, rfl, rfl⟩
    convert IsLexeme.str hquoted using 1
    split <;> simp_all
  split at h
  next hquote =>
    obtain rfl : c = '\'' := by simpa using hquote
    obtain ⟨body, lexeme, rest, hquoted, hchars, hread⟩ :=
      isQuoted_quotedToken .char '\'' "\\0" source chars
    rw [hread] at h
    cases h
    exact ⟨lexeme, rest, hchars, .char hquoted, rfl, rfl⟩
  split at h
  next hfirst =>
    cases h
    exact ⟨_, _, List.takeWhile_append_dropWhile, isLexeme_splitWord hfirst chars, rfl, rfl⟩
  split at h
  next hfirst =>
    obtain ⟨hnumber, rfl⟩ := Prod.mk.inj h
    obtain ⟨hlexeme, hline⟩ := isLexeme_numberToken hfirst source.line hnumber
    exact ⟨_, _, List.takeWhile_append_dropWhile, hlexeme, hline, rfl⟩
  split at h
  next hmark =>
    cases h
    exact ⟨[c], chars, rfl, .punctuation hmark, rfl, rfl⟩
  split at h
  next hfirst =>
    dsimp only at h
    split at h
    next hsymbol =>
      cases h
      exact ⟨_, _, splitOperator_append (c :: chars), isLexeme_splitOperator hfirst hsymbol, rfl, rfl⟩
    next => cases h
  · cases h

/-- A lexeme is read if it stands in front of a text. -/
theorem readLexeme_complete {kind : Token.Kind} {text : String}
    (h : IsLexeme kind text (c :: lexeme) rest) :
    source.readLexeme c (lexeme ++ rest) =
      (.ok ⟨kind, text, source.line⟩, source.passing (c :: lexeme) rest) := by
  cases h with
  | word first inside ends =>
    have hall : ∀ d ∈ c :: lexeme, continuesWord d = true :=
      List.forall_mem_cons.mpr ⟨continuesWord_of_startsWord first, inside⟩
    have hsplit : splitWord (c :: (lexeme ++ rest)) = (c :: lexeme, rest) := by
      unfold splitWord
      rw [← List.cons_append, takeWhile_piece hall ends, dropWhile_piece hall ends]
    simp [readLexeme, first_of_startsWord first, first, hsplit]
  | number first inside ends points =>
    have hall : ∀ d ∈ c :: lexeme, continuesNumber d = true :=
      List.forall_mem_cons.mpr ⟨by simp [continuesNumber, first], inside⟩
    have hsplit : splitNumber (c :: (lexeme ++ rest)) = (c :: lexeme, rest) := by
      unfold splitNumber
      rw [← List.cons_append, takeWhile_piece hall ends, dropWhile_piece hall ends]
    rcases points with ⟨rfl, points⟩ | ⟨rfl, points⟩
    · simp [readLexeme, first_of_isDigit first, first, hsplit, numberToken, points]
    · simp [readLexeme, first_of_isDigit first, first, hsplit, numberToken, points]
  | @str body _ _ quoted =>
    obtain ⟨_, ⟨⟩⟩ := quoted.exists_cons
    have hbody : (if body = [] then "" else String.ofList body) = String.ofList body := by
      split <;> simp_all
    simp [readLexeme, quotedToken_eq (by decide) quoted, hbody]
  | char quoted =>
    obtain ⟨_, ⟨⟩⟩ := quoted.exists_cons
    simp [readLexeme, quotedToken_eq (by decide) quoted]
  | punctuation mark => simp [readLexeme, first_of_isPunctuation mark, mark]
  | operator first longest =>
    have hfirst : startsOperator c = true := first
    have hsplit := longest.split first
    rw [List.cons_append] at hsplit
    simp [readLexeme, first_of_startsOperator hfirst, hfirst, hsplit, longest.spells,
      -String.ofList_cons]

end Source

end SinFrontend
