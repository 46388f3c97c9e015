import SinFrontend.Proofs.Cutting
import SinFrontend.Proofs.Lexing.Words
import SinFrontend.Proofs.Lexing.Lexemes
import SinFrontend.Proofs.Symbols.Key
import SinFrontend.Proofs.Types.Parts

/-!
# Keys of symbols in any two scopes

Between the scopes of symbols that are not alive together nothing is known, so all that can tell
their keys apart is the text of the keys. The name and the type can be read off every key. The
scope cannot: the length of a segment stands before the segment without a mark between them, and an
anonymous scope is named by a numeral, so the digits of the one run into the digits of the other.
It takes a long segment to make use of that.

* `keyOf_cut`: the name, the type and the text of the scope can be read off every key.
* `scope_eq_of_text`: the text of a scope determines the scope if no scope is anonymous, or if all
  segments are short.
* `keyOf_eq_iff`: when keys are equal.
* `not_keyOf_injective`: two scopes with the same text.
-/

namespace SinFrontend

/-- The name of an anonymous scope. -/
def IsNumeral (text : String) : Prop :=
  ∃ n : ℕ, text = toString n

/-- What stands in the path of a scope. -/
def IsSegment (text : String) : Prop :=
  IsIdentifier text ∨ IsNumeral text

/-- A segment whose length does not run into others: an identifier whose length has at most two
    digits, or a numeral whose length has one. -/
def IsShort (text : String) : Prop :=
  IsIdentifier text ∧ text.utf8ByteSize < 100 ∨ IsNumeral text ∧ text.utf8ByteSize < 10

theorem IsNumeral.isDigit {text : String} (h : IsNumeral text) :
    ∀ c ∈ text.toList, c.isDigit = true := by
  obtain ⟨n, rfl⟩ := h
  exact fun _ => isDigit_of_mem_number

theorem IsSegment.ne_nil {text : String} (h : IsSegment text) : text.toList ≠ [] := by
  rcases h with ⟨c, rest, htext, -, -⟩ | ⟨n, rfl⟩
  · rw [htext]
    exact List.cons_ne_nil c rest
  · exact number_ne_nil n

theorem IsSegment.not_mem_at {text : String} (h : IsSegment text) : '@' ∉ text.toList := by
  rcases h with hidentifier | hnumeral
  · exact hidentifier.not_mem (by decide)
  · exact fun hmem => absurd (hnumeral.isDigit _ hmem) (by decide)

theorem IsShort.isSegment {text : String} (h : IsShort text) : IsSegment text :=
  h.imp And.left And.left

/-- No identifier begins with a digit. -/
theorem IsIdentifier.stops {text : String} (h : IsIdentifier text) (rest : List Char) :
    Stops Char.isDigit (text.toList ++ rest) := by
  obtain ⟨c, more, htext, hc, -⟩ := h
  rw [htext]
  exact stops_cons (Lexeme.isDigit_of_startsWord hc) _

namespace Symbol

variable {name name' : String} {scope scope' : List String} {type type' : DataType}
  {segment segment' : String} {rest rest' : List Char}

/-! ## Reading off a name and a type -/

theorem not_mem_scopeText (h : ∀ segment ∈ scope, '@' ∉ segment.toList) :
    '@' ∉ (scopeText scope).toList := by
  induction scope with
  | nil => simp [scopeText]
  | cons segment scope ih =>
    rw [List.forall_mem_cons] at h
    rw [toList_scopeText_cons, List.mem_append, List.mem_append, not_or, not_or]
    exact ⟨fun hmem => absurd (isDigit_of_mem_number hmem) (by decide), h.1, ih h.2⟩

/-- The text of the scope, the name and the type can be read off a key. -/
theorem keyOf_cut (hname : '@' ∉ name.toList) (hname' : '@' ∉ name'.toList)
    (hscope : ∀ segment ∈ scope, '@' ∉ segment.toList)
    (hscope' : ∀ segment ∈ scope', '@' ∉ segment.toList)
    (h : keyOf name scope type = keyOf name' scope' type') :
    scopeText scope = scopeText scope' ∧ name = name' ∧ type.decoration = type'.decoration := by
  have hinside {scope : List String} (hscope : ∀ segment ∈ scope, '@' ∉ segment.toList) :
      '@' ∉ (scopeText scope).toList ++ ['E'] := by
    rw [List.mem_append, not_or]
    exact ⟨not_mem_scopeText hscope, by decide⟩
  have htexts := congrArg String.toList
    (show keyAt scope (name, type.decoration) = keyAt scope' (name', type'.decoration) from h)
  rw [toList_keyAt, toList_keyAt, List.append_cancel_left_eq] at htexts
  obtain ⟨htext, hsignature⟩ := mark_cut (hinside hscope) (hinside hscope')
    (by simpa only [List.append_assoc, List.singleton_append] using htexts)
  have hsame : (name, type.decoration) = (name', type'.decoration) :=
    signature_eq_of_toList hname hname' hsignature
  exact ⟨String.toList_injective (List.append_cancel_right htext), Prod.mk.inj hsame⟩

/-! ## Reading off a scope -/

/-- What may follow a segment: nothing, or the length of the next one. -/
def Follows (rest : List Char) : Prop :=
  ∀ c ∈ rest.head?, c.isDigit = true

theorem follows_scopeText (scope : List String) : Follows (scopeText scope).toList := by
  cases scope with
  | nil => exact nofun
  | cons segment scope =>
    obtain ⟨digit, digits, htext, hdigit⟩ := exists_digit_of_scopeText (List.cons_ne_nil segment scope)
    intro c hc
    obtain rfl : digit = c := by simpa [htext] using hc
    exact hdigit

/-- Two segments that are not confused, whatever follows them. -/
def Distinct (segment segment' : String) : Prop :=
  ∀ rest rest' : List Char, Follows rest → Follows rest' →
    (toString segment.utf8ByteSize).toList ++ (segment.toList ++ rest) =
      (toString segment'.utf8ByteSize).toList ++ (segment'.toList ++ rest') →
    segment = segment' ∧ rest = rest'

/-- Segments of the same length cannot be confused. -/
theorem segment_cut (hsize : segment.utf8ByteSize = segment'.utf8ByteSize)
    (h : segment.toList ++ rest = segment'.toList ++ rest') : segment = segment' ∧ rest = rest' := by
  have hnone {segment segment' : String} {more : List Char}
      (hsize : segment.utf8ByteSize = segment'.utf8ByteSize)
      (h : segment'.toList = segment.toList ++ more) : more = [] := by
    have hsplit : segment' = segment ++ String.ofList more :=
      String.toList_injective (by simpa using h)
    rw [hsplit, String.utf8ByteSize_append] at hsize
    have hempty : String.ofList more = "" := String.utf8ByteSize_eq_zero_iff.mp (by omega)
    simpa using congrArg String.toList hempty
  rcases List.append_eq_append_iff.mp h with ⟨more, hmore, hrest⟩ | ⟨more, hmore, hrest⟩
  · obtain rfl := hnone hsize hmore
    exact ⟨String.toList_injective (by simpa using hmore.symm), by simpa using hrest⟩
  · obtain rfl := hnone hsize.symm hmore
    exact ⟨String.toList_injective (by simpa using hmore), by simpa using hrest.symm⟩

/-- The length of an identifier ends where the identifier begins. -/
theorem distinct_identifiers (h : IsIdentifier segment) (h' : IsIdentifier segment') :
    Distinct segment segment' := by
  intro rest rest' _ _ htext
  obtain ⟨hsize, hmore⟩ := number_cut (h.stops rest) (h'.stops rest') htext
  exact segment_cut hsize hmore

theorem number_of_lt_ten {n : ℕ} (h : n < 10) : (toString n).toList = [n.digitChar] := by
  rw [Nat.toString_eq_repr, Nat.toList_repr, Nat.toDigits_of_lt_base h]

/-- Lengths of one digit end behind the digit. -/
theorem distinct_of_lt_ten (h : segment.utf8ByteSize < 10) (h' : segment'.utf8ByteSize < 10) :
    Distinct segment segment' := by
  intro rest rest' _ _ htext
  obtain ⟨hdigits, hmore⟩ := List.append_inj htext
    (by rw [number_of_lt_ten h, number_of_lt_ten h', List.length_singleton, List.length_singleton])
  exact segment_cut (number_injective hdigits) hmore

/-- Before an identifier stand two digits at most. A numeral and its length are two digits at least,
    and if no digit follows them, nothing does. -/
theorem identifier_ne_numeral (h : IsIdentifier segment) (hsize : segment.utf8ByteSize < 100)
    (h' : IsNumeral segment') (hfollows : Follows rest')
    (htext : (toString segment.utf8ByteSize).toList ++ (segment.toList ++ rest) =
      (toString segment'.utf8ByteSize).toList ++ (segment'.toList ++ rest')) : False := by
  -- The digits that both texts begin with: the length of the identifier on the left, and at least
  -- the length of the numeral and the numeral on the right.
  have hdigits : ((toString segment.utf8ByteSize).toList ++ (segment.toList ++ rest)).takeWhile
      Char.isDigit = (toString segment.utf8ByteSize).toList :=
    takeWhile_piece (fun _ => isDigit_of_mem_number) (h.stops rest)
  rw [htext, List.takeWhile_append_of_pos fun _ => isDigit_of_mem_number,
    List.takeWhile_append_of_pos h'.isDigit] at hdigits
  have hcount := congrArg List.length hdigits
  rw [List.length_append, List.length_append] at hcount
  have htwo : (toString segment.utf8ByteSize).toList.length ≤ 2 := by
    rw [Nat.toString_eq_repr, Nat.toList_repr,
      Nat.length_toDigits_le_iff (by decide) (by decide)]
    exact hsize
  have hlength := List.length_pos_iff.mpr (number_ne_nil segment'.utf8ByteSize)
  have hsegment := List.length_pos_iff.mpr (IsSegment.ne_nil (.inr h'))
  have hnone : rest' = [] := by
    cases rest' with
    | nil => rfl
    | cons c rest' =>
      rw [List.takeWhile_cons_of_pos (hfollows c rfl), List.length_cons] at hcount
      omega
  -- So the right text is all digits, and the left one is not.
  subst hnone
  have hlengths := congrArg List.length htext
  have hpos := List.length_pos_iff.mpr (IsSegment.ne_nil (.inl h))
  simp only [List.length_append, List.takeWhile_nil, List.length_nil] at hcount hlengths
  omega

theorem distinct_short (h : IsShort segment) (h' : IsShort segment') :
    Distinct segment segment' := by
  rcases h with ⟨hidentifier, hsize⟩ | ⟨hnumeral, hsize⟩
  · rcases h' with ⟨hidentifier', hsize'⟩ | ⟨hnumeral', hsize'⟩
    · exact distinct_identifiers hidentifier hidentifier'
    · exact fun _ _ _ hfollows htext =>
        (identifier_ne_numeral hidentifier hsize hnumeral' hfollows htext).elim
  · rcases h' with ⟨hidentifier', hsize'⟩ | ⟨hnumeral', hsize'⟩
    · exact fun _ _ hfollows _ htext =>
        (identifier_ne_numeral hidentifier' hsize' hnumeral hfollows htext.symm).elim
    · exact distinct_of_lt_ten hsize hsize'

/-- Scopes without segments that can be confused are told apart by their texts. -/
theorem scope_eq_of_text
    (hdistinct : ∀ segment ∈ scope, ∀ segment' ∈ scope', Distinct segment segment')
    (h : scopeText scope = scopeText scope') : scope = scope' := by
  induction scope generalizing scope' with
  | nil =>
    cases scope' with
    | nil => rfl
    | cons segment' scope' =>
      obtain ⟨digit, rest, htext, -⟩ := exists_digit_of_scopeText (List.cons_ne_nil segment' scope')
      rw [← h] at htext
      cases htext
  | cons segment scope ih =>
    cases scope' with
    | nil =>
      obtain ⟨digit, rest, htext, -⟩ := exists_digit_of_scopeText (List.cons_ne_nil segment scope)
      rw [h] at htext
      cases htext
    | cons segment' scope' =>
      have htext := congrArg String.toList h
      rw [toList_scopeText_cons, toList_scopeText_cons] at htext
      obtain ⟨rfl, hrest⟩ := hdistinct segment List.mem_cons_self segment' List.mem_cons_self _ _
        (follows_scopeText scope) (follows_scopeText scope') htext
      rw [ih (fun inner hinner inner' hinner' => hdistinct inner (List.mem_cons_of_mem _ hinner)
        inner' (List.mem_cons_of_mem _ hinner')) (String.toList_injective hrest)]

/-- Keys are equal exactly if they are keys of the same name and the same decorated type, in scopes
    with the same text. The scopes are the same as well if no segment is a numeral, or if all
    segments are short. -/
theorem keyOf_eq_iff (hname : IsIdentifier name) (hname' : IsIdentifier name')
    (hsegments : ∀ segment ∈ scope ++ scope', IsSegment segment) :
    (keyOf name scope type = keyOf name' scope' type' ↔
      name = name' ∧ scopeText scope = scopeText scope' ∧ type.decoration = type'.decoration) ∧
    ((∀ segment ∈ scope ++ scope', IsIdentifier segment) ∨
        (∀ segment ∈ scope ++ scope', IsShort segment) →
      (scopeText scope = scopeText scope' ↔ scope = scope')) := by
  have hscopes := List.forall_mem_append.mp hsegments
  refine ⟨⟨fun h => ?_, ?_⟩, fun hall => ⟨scope_eq_of_text ?_, congrArg scopeText⟩⟩
  · obtain ⟨htext, hnames, htypes⟩ := keyOf_cut (hname.not_mem (by decide))
      (hname'.not_mem (by decide)) (fun segment hmem => (hscopes.1 segment hmem).not_mem_at)
      (fun segment hmem => (hscopes.2 segment hmem).not_mem_at) h
    exact ⟨hnames, htext, htypes⟩
  · rintro ⟨rfl, htext, htypes⟩
    rw [keyOf, keyOf, htext, htypes]
  · intro segment hsegment segment' hsegment'
    have hmem := List.mem_append_left scope' hsegment
    have hmem' := List.mem_append_right scope hsegment'
    rcases hall with hidentifiers | hshort
    · exact distinct_identifiers (hidentifiers _ hmem) (hidentifiers _ hmem')
    · exact distinct_short (hshort _ hmem) (hshort _ hmem')

/-- The symbols of a function `main` and of the first anonymous scope in it are told apart. -/
theorem keyOf_eq_iff_anonymous :
    IsIdentifier "x" ∧ (∀ segment ∈ ["main"] ++ ["main", "0"], IsSegment segment) ∧
      (∀ segment ∈ ["main"] ++ ["main", "0"], IsShort segment) ∧
      keyOf "x" ["main"] (.ofKind .int .empty) ≠ keyOf "x" ["main", "0"] (.ofKind .int .empty) := by
  have hname : IsIdentifier "x" := ⟨'x', [], rfl, rfl, nofun⟩
  have hmain : IsShort "main" :=
    .inl ⟨⟨'m', ['a', 'i', 'n'], rfl, rfl, List.all_eq_true.mp (by decide)⟩, by decide⟩
  have hfirst : IsShort "0" := .inr ⟨⟨0, rfl⟩, by decide⟩
  have hshort : ∀ segment ∈ ["main"] ++ ["main", "0"], IsShort segment := by
    simp [hmain, hfirst]
  have hsegments : ∀ segment ∈ ["main"] ++ ["main", "0"], IsSegment segment :=
    fun segment hmem => (hshort segment hmem).isSegment
  refine ⟨hname, hsegments, hshort, fun h => ?_⟩
  obtain ⟨hkeys, hscopes⟩ := keyOf_eq_iff hname hname hsegments
  have hsame : ["main"] = ["main", "0"] := (hscopes (.inr hshort)).mp (hkeys.mp h).2.1
  exact absurd hsame (by decide)

/-- The scope of a function `a98b…b` with a name of 101 characters has the text of the scope of a
    function `b…b` in a function `a` in the anonymous scope `0`: the length `101` begins with the
    length and the numeral of the anonymous scope. -/
theorem not_keyOf_injective :
    ¬ ∀ (name name' : String) (scope scope' : List String) (type type' : DataType),
      IsIdentifier name → IsIdentifier name' →
      (∀ segment ∈ scope ++ scope', IsSegment segment) →
      (type.Everywhere fun part => ∀ struct ∈ part.structName, IsIdentifier struct) →
      (type'.Everywhere fun part => ∀ struct ∈ part.structName, IsIdentifier struct) →
      keyOf name scope type = keyOf name' scope' type' →
      name = name' ∧ scope = scope' ∧ type.decoration = type'.decoration := by
  intro hinjective
  let inner := String.ofList (List.replicate 98 'b')
  have hname : IsIdentifier "x" := ⟨'x', [], rfl, rfl, nofun⟩
  have houter : IsIdentifier ("a98" ++ inner) :=
    ⟨'a', '9' :: '8' :: List.replicate 98 'b', by simp [inner], rfl,
      List.all_eq_true.mp (by decide)⟩
  have hinner : IsIdentifier inner :=
    ⟨'b', List.replicate 97 'b', String.toList_ofList.trans rfl, rfl,
      List.all_eq_true.mp (by decide)⟩
  have hmiddle : IsIdentifier "a" := ⟨'a', [], rfl, rfl, nofun⟩
  have hsegments : ∀ segment ∈ ["a98" ++ inner] ++ ["0", "a", inner], IsSegment segment := by
    have hzero : IsNumeral "0" := ⟨0, rfl⟩
    simp [IsSegment, houter, hinner, hmiddle, hzero]
  have hplain : (DataType.ofKind .int .empty).Everywhere fun part =>
      ∀ struct ∈ part.structName, IsIdentifier struct := .intro nofun nofun
  have hkeys : keyOf "x" ["a98" ++ inner] (.ofKind .int .empty) =
      keyOf "x" ["0", "a", inner] (.ofKind .int .empty) := by
    decide +kernel
  have hsame := hinjective "x" "x" _ _ _ _ hname hname hsegments hplain hplain hkeys
  exact absurd hsame.2.1 (by simp)

end Symbol

end SinFrontend
