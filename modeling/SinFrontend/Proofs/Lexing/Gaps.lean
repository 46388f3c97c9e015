import Mathlib.Data.List.Infix
import SinFrontend.Token.Lexeme

/-!
# Gaps

A gap is made of white space and comments. What is cut off in front of a lexeme is a gap, and no
other piece of the text is.

* `IsGap`: white space and closed comments, one after another. `IsLastGap` allows a comment that is
  not closed at the end.
* `splitGap_iff`: a gap is cut off up to where neither white space nor a comment begins; one that
  ends in an open comment reaches to the end of the text.
-/

namespace SinFrontend.Lexeme

/-! ## What gaps are made of -/

/-- The inside of a block comment: the end of a block comment does not occur in it. -/
def IsBlockBody (body : List Char) : Prop :=
  ¬ ['*', '/'] <:+: body

/-- A piece of a gap: one character of white space, or a comment with its end. -/
inductive IsFiller : List Char → Prop where
  | blank {c : Char} (blank : isBlank c = true) : IsFiller [c]
  | lineComment {body : List Char} (inside : '\n' ∉ body) :
      IsFiller ('/' :: '/' :: (body ++ ['\n']))
  | blockComment {body : List Char} (inside : IsBlockBody body) :
      IsFiller ('/' :: '*' :: (body ++ ['*', '/']))

/-- White space and closed comments, one after another. -/
inductive IsGap : List Char → Prop where
  | nil : IsGap []
  | append {piece gap : List Char} (first : IsFiller piece) (more : IsGap gap) :
      IsGap (piece ++ gap)

/-- A comment without its end. -/
inductive IsOpenComment : List Char → Prop where
  | line {body : List Char} (inside : '\n' ∉ body) : IsOpenComment ('/' :: '/' :: body)
  | block {body : List Char} (inside : IsBlockBody body) : IsOpenComment ('/' :: '*' :: body)

/-- A gap at the end of a text: the last comment may lack its end. -/
def IsLastGap (gap : List Char) : Prop :=
  IsGap gap ∨ ∃ closed comment, IsGap closed ∧ IsOpenComment comment ∧ gap = closed ++ comment

/-- Whether white space or a comment begins here. -/
def startsGap : List Char → Bool
  | '/' :: '/' :: _ | '/' :: '*' :: _ => true
  | c :: _ => isBlank c
  | [] => false

/-! ## Small facts -/

theorem startsGap_cons {c : Char} {chars : List Char} (h : c ≠ '/') :
    startsGap (c :: chars) = isBlank c := by
  rw [startsGap] <;> (rintro more rfl rfl; exact h rfl)

theorem startsGap_slash {chars : List Char} (h : ∀ c ∈ chars.head?, c ≠ '/' ∧ c ≠ '*') :
    startsGap ('/' :: chars) = false := by
  rw [startsGap]
  · rfl
  · rintro more - rfl
    exact (h '/' rfl).1 rfl
  · rintro more - rfl
    exact (h '*' rfl).2 rfl

theorem isBlockBody_cons {c : Char} {body : List Char} :
    IsBlockBody (c :: body) ↔ ¬ (c = '*' ∧ body.head? = some '/') ∧ IsBlockBody body := by
  unfold IsBlockBody
  rw [List.infix_cons_iff, not_or]
  refine and_congr_left fun _ => not_congr ?_
  cases body <;> simp [List.cons_prefix_cons, eq_comm]

theorem IsLastGap.append {piece gap : List Char} (first : IsFiller piece) (more : IsLastGap gap) :
    IsLastGap (piece ++ gap) := by
  rcases more with closed | ⟨closed, comment, hclosed, hcomment, rfl⟩
  · exact .inl (.append first closed)
  · exact .inr ⟨piece ++ closed, comment, .append first hclosed, hcomment, by simp⟩

/-! ## Cutting off a given gap -/

variable {chars rest piece gap body : List Char}

theorem splitGap_nil (mode : Gap) : splitGap mode [] = ([], []) := by
  cases mode <;> rfl

theorem splitGap_slashSlash :
    splitGap .blank ('/' :: '/' :: chars) =
      ('/' :: '/' :: (splitGap .lineComment chars).1, (splitGap .lineComment chars).2) := rfl

theorem splitGap_slashStar :
    splitGap .blank ('/' :: '*' :: chars) =
      ('/' :: '*' :: (splitGap .blockComment chars).1, (splitGap .blockComment chars).2) := rfl

theorem splitGap_starSlash :
    splitGap .blockComment ('*' :: '/' :: chars) =
      ('*' :: '/' :: (splitGap .blank chars).1, (splitGap .blank chars).2) := rfl

theorem splitGap_newline :
    splitGap .lineComment ('\n' :: chars) =
      ('\n' :: (splitGap .blank chars).1, (splitGap .blank chars).2) := rfl

/-- Inside a line comment, any character but its end is passed. -/
theorem splitGap_line_cons {c : Char} (h : c ≠ '\n') :
    splitGap .lineComment (c :: chars) =
      (c :: (splitGap .lineComment chars).1, (splitGap .lineComment chars).2) := by
  rw [splitGap, beq_false_of_ne h]
  rfl

/-- Inside a block comment, any character but the beginning of its end is passed. -/
theorem splitGap_block_cons {c : Char} (h : ¬ (c = '*' ∧ chars.head? = some '/')) :
    splitGap .blockComment (c :: chars) =
      (c :: (splitGap .blockComment chars).1, (splitGap .blockComment chars).2) := by
  rw [splitGap]
  rintro more rfl rfl
  exact h ⟨rfl, rfl⟩

/-- Where neither white space nor a comment begins, nothing is cut off. -/
theorem splitGap_of_not_startsGap (h : startsGap rest = false) : splitGap .blank rest = ([], rest) := by
  fun_cases startsGap rest with
  | case1 => simp [startsGap] at h
  | case2 => simp [startsGap] at h
  | case3 c more hline hblock =>
    have hblank : isBlank c = false := by simpa [startsGap] using h
    rw [splitGap] <;> simp_all
  | case4 => rfl

theorem splitGap_lineBody (inside : '\n' ∉ body) :
    splitGap .lineComment (body ++ '\n' :: chars) =
      (body ++ '\n' :: (splitGap .blank chars).1, (splitGap .blank chars).2) := by
  induction body with
  | nil => exact splitGap_newline
  | cons c body ih =>
    rw [List.mem_cons, not_or] at inside
    rw [List.cons_append, splitGap_line_cons (Ne.symm inside.1), ih inside.2]
    rfl

theorem splitGap_openLine (inside : '\n' ∉ body) :
    splitGap .lineComment body = (body, []) := by
  induction body with
  | nil => rfl
  | cons c body ih =>
    rw [List.mem_cons, not_or] at inside
    rw [splitGap_line_cons (Ne.symm inside.1), ih inside.2]

theorem splitGap_blockBody (inside : IsBlockBody body) :
    splitGap .blockComment (body ++ '*' :: '/' :: chars) =
      (body ++ '*' :: '/' :: (splitGap .blank chars).1, (splitGap .blank chars).2) := by
  induction body with
  | nil => exact splitGap_starSlash
  | cons c body ih =>
    obtain ⟨hfirst, hmore⟩ := isBlockBody_cons.mp inside
    have hopen : ¬ (c = '*' ∧ (body ++ '*' :: '/' :: chars).head? = some '/') := by
      rintro ⟨hc, hhead⟩
      cases body with
      | nil => simp at hhead
      | cons d body => exact hfirst ⟨hc, hhead⟩
    rw [List.cons_append, splitGap_block_cons hopen, ih hmore]
    rfl

theorem splitGap_openBlock (inside : IsBlockBody body) :
    splitGap .blockComment body = (body, []) := by
  induction body with
  | nil => rfl
  | cons c body ih =>
    obtain ⟨hfirst, hmore⟩ := isBlockBody_cons.mp inside
    rw [splitGap_block_cons hfirst, ih hmore]

theorem splitGap_filler (h : IsFiller piece) :
    splitGap .blank (piece ++ chars) =
      (piece ++ (splitGap .blank chars).1, (splitGap .blank chars).2) := by
  cases h with
  | @blank c blank =>
    rw [List.singleton_append, splitGap, if_pos blank]
    · rfl
    · rintro more rfl rfl
      cases blank
    · rintro more rfl rfl
      cases blank
  | lineComment inside => simp [splitGap_slashSlash, splitGap_lineBody inside]
  | blockComment inside => simp [splitGap_slashStar, splitGap_blockBody inside]

/-- A closed gap is cut off, and whatever follows it. -/
theorem splitGap_gap (h : IsGap gap) :
    splitGap .blank (gap ++ chars) =
      (gap ++ (splitGap .blank chars).1, (splitGap .blank chars).2) := by
  induction h with
  | nil => rfl
  | append first more ih => rw [List.append_assoc, splitGap_filler first, ih, List.append_assoc]

theorem splitGap_openComment {comment : List Char} (h : IsOpenComment comment) :
    splitGap .blank comment = (comment, []) := by
  cases h with
  | line inside => rw [splitGap_slashSlash, splitGap_openLine inside]
  | block inside => rw [splitGap_slashStar, splitGap_openBlock inside]

/-! ## What is cut off -/

/-- A gap that is cut off in front of the rest of a text: it is closed and the rest goes on with
    something else, or it is all that is left. -/
def CutsGap (gap rest : List Char) : Prop :=
  IsGap gap ∧ startsGap rest = false ∨ IsLastGap gap ∧ rest = []

/-- What is cut off, and what is left, by a reader that may stand inside a comment. -/
def CutsFrom : Gap → List Char → List Char → Prop
  | .blank, gap, rest => CutsGap gap rest
  | .lineComment, gap, rest =>
    (∃ body more, gap = body ++ '\n' :: more ∧ '\n' ∉ body ∧ CutsGap more rest) ∨
      '\n' ∉ gap ∧ rest = []
  | .blockComment, gap, rest =>
    (∃ body more, gap = body ++ '*' :: '/' :: more ∧ IsBlockBody body ∧ CutsGap more rest) ∨
      IsBlockBody gap ∧ rest = []

theorem CutsGap.append (first : IsFiller piece) (more : CutsGap gap rest) :
    CutsGap (piece ++ gap) rest :=
  more.imp (And.imp_left (.append first)) (And.imp_left (.append first))

theorem CutsGap.of_line (h : CutsFrom .lineComment gap rest) : CutsGap ('/' :: '/' :: gap) rest := by
  rcases h with ⟨body, more, rfl, inside, hmore⟩ | ⟨inside, rfl⟩
  · simpa using CutsGap.append (.lineComment inside) hmore
  · exact .inr ⟨.inr ⟨[], _, .nil, .line inside, rfl⟩, rfl⟩

theorem CutsGap.of_block (h : CutsFrom .blockComment gap rest) :
    CutsGap ('/' :: '*' :: gap) rest := by
  rcases h with ⟨body, more, rfl, inside, hmore⟩ | ⟨inside, rfl⟩
  · simpa using CutsGap.append (.blockComment inside) hmore
  · exact .inr ⟨.inr ⟨[], _, .nil, .block inside, rfl⟩, rfl⟩

theorem cutsFrom_lineComment_cons {c : Char} (hc : c ≠ '\n')
    (h : CutsFrom .lineComment gap rest) : CutsFrom .lineComment (c :: gap) rest := by
  rcases h with ⟨body, more, rfl, inside, hmore⟩ | ⟨inside, rfl⟩
  · exact .inl ⟨c :: body, more, rfl, by simp [hc.symm, inside], hmore⟩
  · exact .inr ⟨by simp [hc.symm, inside], rfl⟩

theorem cutsFrom_blockComment_cons {c : Char}
    (hc : ¬ (c = '*' ∧ (gap ++ rest).head? = some '/'))
    (h : CutsFrom .blockComment gap rest) : CutsFrom .blockComment (c :: gap) rest := by
  rcases h with ⟨body, more, rfl, inside, hmore⟩ | ⟨inside, rfl⟩
  · refine .inl ⟨c :: body, more, rfl, isBlockBody_cons.mpr ⟨?_, inside⟩, hmore⟩
    rintro ⟨rfl, hhead⟩
    cases body with
    | nil => simp at hhead
    | cons d body => exact hc ⟨rfl, hhead⟩
  · exact .inr ⟨isBlockBody_cons.mpr ⟨by simpa using hc, inside⟩, rfl⟩

/-- Whatever is cut off is a gap, up to its end. -/
theorem cutsFrom_splitGap (mode : Gap) (chars : List Char) :
    CutsFrom mode (splitGap mode chars).1 (splitGap mode chars).2 := by
  fun_induction splitGap mode chars with
  | case1 rest gap after hsplit ih => exact .of_line (by rwa [hsplit] at ih)
  | case2 rest gap after hsplit ih => exact .of_block (by rwa [hsplit] at ih)
  | case3 c rest hline hblock hblank gap after hsplit ih =>
    rw [hsplit] at ih
    exact CutsGap.append (.blank hblank) ih
  | case4 c rest hline hblock hblank =>
    refine .inl ⟨.nil, ?_⟩
    rw [startsGap]
    · simpa using hblank
    · exact hline
    · exact hblock
  | case5 c rest gap after hsplit ih =>
    rw [hsplit] at ih
    by_cases hc : c = '\n'
    · subst hc
      exact .inl ⟨[], gap, rfl, by simp, ih⟩
    · exact cutsFrom_lineComment_cons hc (by simpa [hc] using ih)
  | case6 rest gap after hsplit ih =>
    rw [hsplit] at ih
    exact .inl ⟨[], gap, rfl, by simp [IsBlockBody], ih⟩
  | case7 c rest hopen gap after hsplit ih =>
    have happend := splitGap_append .blockComment rest
    rw [hsplit] at ih happend
    refine cutsFrom_blockComment_cons ?_ ih
    rintro ⟨rfl, hhead⟩
    obtain ⟨more, rfl⟩ := List.head?_eq_some_iff.mp (happend ▸ hhead)
    exact hopen more rfl rfl
  | case8 mode =>
    cases mode
    · exact .inl ⟨.nil, rfl⟩
    · exact .inr ⟨by simp, rfl⟩
    · exact .inr ⟨by simp [IsBlockBody], rfl⟩

/-- The text in front of a lexeme is cut in one way only. -/
theorem splitGap_iff :
    splitGap .blank chars = (gap, rest) ↔ gap ++ rest = chars ∧ CutsGap gap rest := by
  constructor
  · intro h
    have happend := splitGap_append .blank chars
    have hcuts := cutsFrom_splitGap .blank chars
    rw [h] at happend hcuts
    exact ⟨happend, hcuts⟩
  · rintro ⟨rfl, ⟨hgap, hrest⟩ | ⟨hgap | ⟨closed, comment, hclosed, hcomment, rfl⟩, rfl⟩⟩
    · rw [splitGap_gap hgap, splitGap_of_not_startsGap hrest, List.append_nil]
    · rw [splitGap_gap hgap, splitGap_nil, List.append_nil]
    · rw [List.append_nil, splitGap_gap hclosed, splitGap_openComment hcomment]

end SinFrontend.Lexeme
