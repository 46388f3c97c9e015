import SinFrontend.Proofs.Onward
import SinFrontend.Proofs.Wording.Demands

/-!
# Lists in a token list

Which groups of a token list are lists can be told from the tokens alone: a list is empty, or has a
comma outside of the groups inside it. So can be told where a list stands as an operand: directly
behind an operator, or at the beginning of a group that is no list itself. In the latter case the
parentheses around the list hide that it is one. The sign `:` is no such operator, since a list may
be the value of a member.

A comma between the members of a tuple type counts as well. So some groups count as lists that are
none, but never the other way round. Only a reserved word that is spelled like the index operator,
which no text has, could be read as part of a group or not; where it stands, nothing is told.

* `Token.Role`: what a token is to groups.
* `separated`: whether a comma stands in a group that has been opened.
* `hasListOperand`: whether a list stands as an operand somewhere.
* `Session.Spans`: between two sessions, all groups that are opened are closed.
* `Session.Apart`: no list stands as an operand among the tokens of a session.
-/

namespace SinFrontend

/-! ## Roles of tokens -/

/-- What a token is to groups and lists. -/
inductive Token.Role where
  | opens | closes | comma | operator | constexpr | ambiguous | other
  deriving DecidableEq

/-- Neither a comma nor a symbol of a group. -/
def Token.Role.isPlain : Role → Bool
  | operator | constexpr | other => true
  | opens | closes | comma | ambiguous => false

namespace Token

/-- The role of a token. Whatever spells the index operator opens a group; if it were a reserved
    word, it might as well be the name of a type. The sign `:` also stands before values, so it is
    no operator here. -/
def role (token : Token) : Role :=
  if token.operator? = some .index then if token.kind = .keyword then .ambiguous else .opens
  else match token.kind with
  | .punctuation =>
    if token.text == "," then .comma
    else if (Grouping.ofOpening? token.text).isSome then .opens
    else if [Grouping.paren, .bracket, .brace].any (·.closing == token.text) then .closes
    else if Operator.isSymbol token.text then .operator
    else .other
  | .operator => if token.text == ":" then .other else .operator
  | .keyword =>
    if token.text == "constexpr" then .constexpr
    else if Operator.isSymbol token.text then .operator
    else .other
  | _ => .other

variable {token : Token}

theorem role_of_index (h : token.operator? = some .index) (hrole : token.role ≠ .ambiguous) :
    token.role = .opens := by
  simp only [role, h, if_true] at hrole ⊢
  split
  next hkind => exact absurd (if_pos hkind) hrole
  next => rfl

theorem role_of_comma (h : token.isPunctuation "," = true) : token.role = .comma := by
  have hindex : token.operator? ≠ some .index := by
    rw [operator?, Parser.kind_of_isPunctuation h, Parser.text_of_isPunctuation h]
    decide +kernel
  simp [role, hindex, Parser.kind_of_isPunctuation h, Parser.text_of_isPunctuation h]

theorem role_of_opening {opened : Grouping} (hkind : token.kind = .punctuation)
    (h : Grouping.ofOpening? token.text = some opened) : token.role = .opens := by
  have htext : opened.opening = token.text := by simpa using List.find?_some h
  unfold role operator?
  rw [hkind, ← htext]
  cases opened <;> decide +kernel

theorem role_of_closing {opened : Grouping} (h : token.isPunctuation opened.closing = true) :
    token.role = .closes := by
  unfold role operator?
  rw [Parser.kind_of_isPunctuation h, Parser.text_of_isPunctuation h]
  cases opened <;> decide +kernel

theorem ne_eof_of_role {role : Role} (h : token.role = role) (hrole : role ≠ .other) :
    token.kind ≠ .eof := by
  rintro hkind
  simp only [Token.role, operator?, hkind] at h
  exact hrole h.symm

/-! ## Tokens that group nothing -/

/-- What is neither punctuation nor an index operator groups nothing. -/
theorem isPlain_of_kind (h : token.kind ≠ .punctuation) (hindex : token.operator? ≠ some .index) :
    token.role.isPlain = true := by
  rw [role, if_neg hindex]
  cases hkind : token.kind with
  | punctuation => exact absurd hkind h
  | operator =>
    dsimp only
    split <;> rfl
  | keyword =>
    dsimp only
    split
    · rfl
    · split <;> rfl
  | _ => rfl

theorem isPlain_of_isWord (h : token.kind = .keyword ∨ token.kind = .identifier)
    (hrole : token.role ≠ .ambiguous) : token.role.isPlain = true := by
  rcases h with hkind | hkind
  · exact isPlain_of_kind (by simp [hkind]) fun hindex => hrole (by simp [role, hindex, hkind])
  · exact isPlain_of_kind (by simp [hkind]) (by simp [operator?, hkind])

/-- Operands of a single token, and the end of input, group nothing. -/
theorem isPlain_of_operator?_none (hkind : token.kind ≠ .punctuation) (h : token.operator? = none) :
    token.role.isPlain = true :=
  isPlain_of_kind hkind (by simp [h])

/-- The index operator is spelled in one way. -/
theorem operator?_ne_index (h : token.text ≠ "[") : token.operator? ≠ some .index := fun hindex =>
  h (Operator.symbol_of_ofSymbol? (ofSymbol?_of_operator? hindex).2).symm

theorem isPlain_of_hasForm {kind : Kind} {text : String} (h : token.hasForm kind text = true)
    (hkind : kind ≠ .punctuation) (htext : text ≠ "[") : token.role.isPlain = true := by
  simp only [hasForm, Bool.and_eq_true, beq_iff_eq] at h
  exact isPlain_of_kind (h.1 ▸ hkind) (operator?_ne_index (h.2 ▸ htext))

theorem role_of_constexpr (h : token.isKeyword "constexpr" = true) : token.role = .constexpr := by
  simp only [isKeyword, hasForm, Bool.and_eq_true, beq_iff_eq] at h
  have hindex : token.operator? ≠ some .index := operator?_ne_index (by rw [h.2]; decide)
  simp [role, h, hindex]

theorem role_of_isClosingAngle (h : Parser.isClosingAngle token = true) :
    token.role = .operator := by
  have hne {text : String} (hother : text.toList.all (· == '>') = false) : token.text ≠ text := by
    rintro rfl
    simp [Parser.isClosingAngle, hother] at h
  have hindex : token.operator? ≠ some .index := operator?_ne_index (hne (by decide))
  have hcolon : token.text ≠ ":" := hne (by decide)
  simp [role, hindex, Parser.kind_of_isClosingAngle h, hcolon]

/-- What names a quality groups nothing. -/
theorem isPlain_of_ofWord? {quality : Quality} (h : Quality.ofWord? token.text = some quality) :
    token.role.isPlain = true := by
  have htext : quality.word = token.text := by simpa using List.find?_some h
  have hindex : token.operator? ≠ some .index := by
    refine operator?_ne_index ?_
    rw [← htext]
    cases quality <;> decide
  by_cases hkind : token.kind = .punctuation
  · rw [role, if_neg hindex, hkind, ← htext]
    cases quality <;> decide +kernel
  · exact isPlain_of_kind hkind hindex

/-- An operator that opens no group, and selects no attribute, has the role of one. -/
theorem role_of_operator? {op : Operator} (h : token.operator? = some op) (hindex : op ≠ .index)
    (hprocedure : op ≠ .procOperator) (hselection : op ≠ .attributeSelection) :
    token.role = .operator := by
  obtain ⟨hkind, hspelled⟩ := ofSymbol?_of_operator? h
  have hother : token.operator? ≠ some .index := by simpa [h] using hindex
  rw [role, if_neg hother, ← Operator.symbol_of_ofSymbol? hspelled]
  rcases hkind with hkind | hkind | hkind <;> rw [hkind] <;> cases op <;>
    first | contradiction | decide +kernel

/-- Only two operators open a group. -/
theorem isPlain_of_operator? {op : Operator} (h : token.operator? = some op) (hindex : op ≠ .index)
    (hprocedure : op ≠ .procOperator) : token.role.isPlain = true := by
  by_cases hselection : op = .attributeSelection
  · have htext := Operator.symbol_of_ofSymbol? (ofSymbol?_of_operator? h).2
    unfold role
    rw [h, ← htext, hselection]
    cases token.kind <;> decide +kernel
  · rw [role_of_operator? h hindex hprocedure hselection]
    rfl

end Token

/-! ## Lists among roles -/

open Token (Role)

/-- Whether a comma stands in a group that has been opened, before it is closed. So many groups
    have been opened inside it. -/
def separated : ℕ → List Role → Bool
  | _, [] => false
  | depth, .opens :: rest => separated (depth + 1) rest
  | 0, .closes :: _ => false
  | depth + 1, .closes :: rest => separated depth rest
  | 0, .comma :: _ => true
  | depth, _ :: rest => separated depth rest

/-- Whether a group that has been opened is a list. -/
def isListGroup : List Role → Bool
  | .closes :: _ => true
  | rest => separated 0 rest

/-- Whether an operand begins with a list. -/
def beginsWithList : List Role → Bool
  | .constexpr :: .opens :: rest | .opens :: rest => isListGroup rest
  | _ => false

/-- Whether a list stands directly behind an operator, or at the beginning of a group that is no
    list. Where a token may open a group or not, this cannot be told. -/
def hasListOperand : List Role → Bool
  | [] => false
  | .ambiguous :: _ => true
  | .operator :: rest => beginsWithList rest || hasListOperand rest
  | .opens :: rest => beginsWithList rest && !isListGroup rest || hasListOperand rest
  | _ :: rest => hasListOperand rest

section

variable {depth : ℕ} {role : Role} {before rest : List Role}

theorem separated_plain (h : role.isPlain = true) (depth : ℕ) (rest : List Role) :
    separated depth (role :: rest) = separated depth rest := by
  cases role <;> cases depth <;> first | rfl | cases h

theorem isListGroup_of_separated (h : separated 0 rest = true) : isListGroup rest = true := by
  unfold isListGroup
  split
  · rfl
  · exact h

/-- What begins with a list is not closed at once. -/
theorem separated_of_isListGroup (hbegins : beginsWithList rest = true)
    (h : isListGroup rest = true) : separated 0 rest = true := by
  unfold isListGroup at h
  split at h
  · cases hbegins
  · exact h

theorem hasListOperand_cons (h : hasListOperand (role :: rest) = false) :
    hasListOperand rest = false := by
  cases role <;> simp_all [hasListOperand]

theorem hasListOperand_append (h : hasListOperand (before ++ rest) = false) :
    hasListOperand rest = false := by
  induction before with
  | nil => exact h
  | cons role before ih => exact ih (hasListOperand_cons h)

/-! An end of input changes nothing. -/

theorem separated_append_other (depth : ℕ) (rest : List Role) :
    separated depth (rest ++ [.other]) = separated depth rest := by
  fun_induction separated depth rest <;> simp_all [separated]

theorem isListGroup_append_other (rest : List Role) :
    isListGroup (rest ++ [.other]) = isListGroup rest := by
  cases rest with
  | nil => rfl
  | cons role rest => cases role <;> simp [isListGroup, ← separated_append_other 0 (_ :: rest)]

theorem beginsWithList_append_other (rest : List Role) :
    beginsWithList (rest ++ [.other]) = beginsWithList rest := by
  fun_cases beginsWithList rest with
  | case1 rest => simp [beginsWithList, isListGroup_append_other]
  | case2 rest => simp [beginsWithList, isListGroup_append_other]
  | case3 rest hword hopens =>
    rcases rest with _ | ⟨first, _ | ⟨second, rest⟩⟩
    · rfl
    · cases first <;> simp_all [beginsWithList]
    · cases first <;> cases second <;> simp_all [beginsWithList]

theorem hasListOperand_append_other (rest : List Role) :
    hasListOperand (rest ++ [.other]) = hasListOperand rest := by
  induction rest with
  | nil => rfl
  | cons role rest ih =>
    cases role <;>
      simp [hasListOperand, ih, beginsWithList_append_other, isListGroup_append_other]

end

/-! ## Lists ahead of sessions -/

namespace Session

/-- The roles of the tokens ahead. -/
def roles (session : Session) : List Role :=
  session.cursor.ahead.map Token.role

/-- No list stands as an operand. -/
def Apart (session : Session) : Prop :=
  hasListOperand (session.cursor.tokens.map Token.role) = false

/-- A session has moved on from another one, over the same tokens, and all groups that are opened in
    between are closed. Only if `level` does not hold may commas stand in between outside of all
    groups. -/
structure Spans (level : Prop) (s later : Session) : Prop where
  tidy : later.Tidy
  tokens : later.cursor.tokens.map Token.role = s.cursor.tokens.map Token.role
  inside : ∀ depth, separated (depth + 1) s.roles = separated (depth + 1) later.roles
  outside : separated 0 later.roles = true → separated 0 s.roles = true
  level : level → separated 0 s.roles = true → separated 0 later.roles = true

variable {level : Prop} {s middle later : Session}

theorem Spans.refl (hs : s.Tidy) : s.Spans level s :=
  ⟨hs, rfl, fun _ => rfl, id, fun _ => id⟩

theorem Spans.trans (h : s.Spans level middle) (h' : middle.Spans level later) :
    s.Spans level later where
  tidy := h'.tidy
  tokens := h'.tokens.trans h.tokens
  inside depth := (h.inside depth).trans (h'.inside depth)
  outside hlater := h.outside (h'.outside hlater)
  level hlevel hs := h'.level hlevel (h.level hlevel hs)

theorem Spans.mono {stronger : Prop} (h : s.Spans level later) (hlevel : stronger → level) :
    s.Spans stronger later :=
  ⟨h.tidy, h.tokens, h.inside, h.outside, fun hstronger => h.level (hlevel hstronger)⟩

theorem Spans.apart (h : s.Spans level later) (hs : s.Apart) : later.Apart := by
  rw [Apart, h.tokens]
  exact hs

/-- What is ahead alike is spanned alike. -/
theorem Spans.of_separated (hlater : later.Tidy)
    (htokens : later.cursor.tokens.map Token.role = s.cursor.tokens.map Token.role)
    (hsame : ∀ depth, separated depth s.roles = separated depth later.roles) :
    s.Spans level later :=
  ⟨hlater, htokens, fun depth => hsame (depth + 1), fun h => (hsame 0).trans h,
    fun _ h => (hsame 0).symm.trans h⟩

theorem Spans.record (h : s.Spans level later) (diagnostics : List Diagnostic) :
    s.Spans level { later with diagnostics } :=
  ⟨⟨h.tidy.closed, h.tidy.passed⟩, h.tokens, h.inside, h.outside, h.level⟩

/-! ### The token ahead -/

theorem separated_of_comma (h : s.cursor.current.role = .comma) : separated 0 s.roles = true := by
  simp [roles, Cursor.ahead, h, separated]

theorem separated_of_closes (h : s.cursor.current.role = .closes) :
    separated 0 s.roles = false := by
  simp [roles, Cursor.ahead, h, separated]

theorem isListGroup_of_closes (h : s.cursor.current.role = .closes) :
    isListGroup s.roles = true := by
  simp [roles, Cursor.ahead, h, isListGroup]

theorem roles_advance (hs : s.Tidy) (h : s.cursor.current.kind ≠ .eof) :
    s.roles = s.cursor.current.role :: (s.on .advance).roles := by
  obtain ⟨next, rest, hrest, hadvance⟩ := hs.advance_eq h
  simp [roles, on, Cursor.ahead, hadvance, hrest]

theorem tokens_on_advance : (s.on .advance).cursor.tokens = s.cursor.tokens :=
  Cursor.tokens_advance _

/-- A token that groups nothing does not count, and at the end of input nothing is read. -/
theorem separated_advance (hs : s.Tidy) (h : s.cursor.current.role.isPlain = true) (depth : ℕ) :
    separated depth s.roles = separated depth (s.on .advance).roles := by
  by_cases heof : s.cursor.current.kind = .eof
  · rw [on_advance_of_atEnd (by simp [atEnd, Cursor.atEnd, heof])]
  · rw [roles_advance hs heof, separated_plain h]

theorem Spans.advance (hs : s.Tidy) (h : s.cursor.current.role.isPlain = true) :
    s.Spans level (s.on .advance) :=
  .of_separated (tidy_advance hs) (by rw [tokens_on_advance]) (separated_advance hs h)

/-- What has moved on from before a token that groups nothing has moved on from behind it. -/
theorem Spans.of_retreat (h : (s.on .retreat).Spans level later) (hs : s.Tidy) (hpast : 0 < s.past)
    (hplain : s.cursor.previous.role.isPlain = true) : s.Spans level later := by
  have hsame := separated_advance (hs.retreat hpast).1 (by rwa [on_retreat_current hpast])
  rw [hs.advance_retreat hpast] at hsame
  exact
    { tidy := h.tidy
      tokens := h.tokens.trans (congrArg _ (Cursor.tokens_retreat _))
      inside := fun depth => (hsame _).symm.trans (h.inside depth)
      outside := fun hlater => (hsame 0).symm.trans (h.outside hlater)
      level := fun hlevel hcomma => h.level hlevel ((hsame 0).trans hcomma) }

theorem Spans.comma (hs : s.Tidy) (h : s.cursor.current.role = .comma) :
    s.Spans False (s.on .advance) := by
  have hroles := roles_advance hs (Token.ne_eof_of_role h nofun)
  rw [h] at hroles
  refine ⟨tidy_advance hs, by rw [tokens_on_advance], fun depth => ?_, ?_, False.elim⟩
  · rw [hroles]
    rfl
  · rw [hroles]
    exact fun _ => rfl

/-- A group is passed over as a whole, with all that is in it. -/
theorem Spans.enclose (hs : s.Tidy) (hopens : s.cursor.current.role = .opens)
    (hinside : (s.on .advance).Spans False middle)
    (hcloses : middle.cursor.current.role = .closes) : s.Spans level (middle.on .advance) := by
  refine .of_separated (tidy_advance hinside.tidy) ?_ fun depth => ?_
  · rw [tokens_on_advance, hinside.tokens, tokens_on_advance]
  · have hinner := hinside.inside depth
    rw [roles_advance hinside.tidy (Token.ne_eof_of_role hcloses nofun), hcloses] at hinner
    rw [roles_advance hs (Token.ne_eof_of_role hopens nofun), hopens]
    exact hinner

/-- Closing brackets that are taken off a token do not matter. -/
theorem Spans.split {c : Char} {more : List Char} (hs : s.Tidy)
    (closing : Parser.isClosingAngle s.cursor.current = true)
    (text : s.cursor.current.text.toList = c :: more) (several : more ≠ []) :
    s.Spans level (s.on (·.replaceText (String.ofList more))) := by
  have hroles : (s.on (·.replaceText (String.ofList more))).roles = s.roles := by
    have hbefore := Token.role_of_isClosingAngle closing
    have hbehind := Token.role_of_isClosingAngle (isClosingAngle_split closing text several)
    simp [roles, on, Cursor.ahead, Cursor.replaceText, hbefore, hbehind]
  refine .of_separated (Forward.replaceText hs _).tidy ?_ fun depth => by rw [hroles]
  simp only [Cursor.tokens, List.map_append]
  exact congrArg _ hroles

/-! ## Operands -/

theorem apart_ofTokens {tokens : List Token} (h : hasListOperand (tokens.map Token.role) = false) :
    (Session.ofTokens tokens).Apart := by
  rcases tokens_ofTokens_or tokens with htokens | ⟨line, htokens⟩ <;> rw [Apart, htokens]
  · exact h
  · have heof : (Token.eof line).role = .other := rfl
    rw [List.map_append, List.map_singleton, heof, hasListOperand_append_other]
    exact h

theorem Apart.ahead (h : s.Apart) : hasListOperand s.roles = false := by
  rw [Apart, Cursor.tokens, List.map_append] at h
  exact hasListOperand_append h

theorem Apart.role_ne_ambiguous (h : s.Apart) : s.cursor.current.role ≠ .ambiguous := by
  intro hrole
  have hahead := h.ahead
  simp [roles, Cursor.ahead, hrole, hasListOperand] at hahead

theorem Apart.advance (h : s.Apart) : (s.on .advance).Apart := by
  rwa [Apart, tokens_on_advance]

theorem Apart.retreat (h : s.Apart) : (s.on .retreat).Apart := by
  rwa [Apart, show (s.on .retreat).cursor.tokens = _ from Cursor.tokens_retreat _]

/-- A token that groups nothing is handed out, also where the last one is handed out again. -/
theorem Apart.spans_advance (h : s.Apart) (hs : s.Tidy)
    (hplain : (s.on .advance).cursor.previous.role ≠ .ambiguous →
      (s.on .advance).cursor.previous.role.isPlain = true) : s.Spans level (s.on .advance) := by
  by_cases heof : s.cursor.current.kind = .eof
  · rw [on_advance_of_atEnd (by simp [atEnd, Cursor.atEnd, heof])]
    exact .refl hs
  · rw [hs.advance_previous heof] at hplain
    exact .advance hs (hplain h.role_ne_ambiguous)

/-- No list stands behind an operator. -/
theorem Apart.operator (h : s.Apart) (hs : s.Tidy) (hrole : s.cursor.current.role = .operator) :
    beginsWithList (s.on .advance).roles = false := by
  have hahead := h.ahead
  rw [roles_advance hs (Token.ne_eof_of_role hrole nofun), hrole, hasListOperand,
    Bool.or_eq_false_iff] at hahead
  exact hahead.1

/-- A group that begins with a list is one. -/
theorem Apart.group (h : s.Apart) (hs : s.Tidy) (hrole : s.cursor.current.role = .opens)
    (hlist : beginsWithList (s.on .advance).roles = true) :
    isListGroup (s.on .advance).roles = true := by
  have hahead := h.ahead
  rw [roles_advance hs (Token.ne_eof_of_role hrole nofun), hrole, hasListOperand, hlist,
    Bool.or_eq_false_iff] at hahead
  simpa using hahead.1

end Session

end SinFrontend
