import Mathlib.Data.List.Forall2
import SinFrontend.Token

/-!
# Patterns of tokens

Printing a tree does not say on which line each token stands. A printed text is a list of
patterns: each gives the class and the text of a token, and its line where the line matters.

* `Spells`: a list of tokens has the form that a list of patterns gives.
* `spells_append_iff`: a printed text is spelled part by part.
-/

namespace SinFrontend

/-- The form of a token: its class and text, and its line where that matters. -/
structure Pattern where
  kind : Token.Kind
  text : String
  line : Option ℕ := none
  deriving DecidableEq

namespace Pattern

/-- Whether a token has a form. -/
def Matches (pattern : Pattern) (token : Token) : Prop :=
  ∃ line, token = ⟨pattern.kind, pattern.text, line⟩ ∧ ∀ required ∈ pattern.line, line = required

/-- The form of a punctuation mark. -/
def mark (text : String) : Pattern :=
  { kind := .punctuation, text }

/-- The form of a reserved word. -/
def word (text : String) : Pattern :=
  { kind := .keyword, text }

/-- The form of an identifier. -/
def identifier (text : String) : Pattern :=
  { kind := .identifier, text }

/-- The form of an operator. Some operators are reserved words. -/
def operator (op : Operator) : Pattern :=
  { kind := if Token.isReserved op.symbol then .keyword else .operator, text := op.symbol }

/-- The form of a reserved word on a given line. -/
def wordOn (line : ℕ) (text : String) : Pattern :=
  { kind := .keyword, text, line := some line }

/-- A text that begins on a given line. -/
def startingOn (line : ℕ) : List Pattern → List Pattern
  | [] => []
  | first :: more => { first with line := some line } :: more

end Pattern

/-- Whether a list of tokens has the form that a list of patterns gives. -/
def Spells (patterns : List Pattern) (tokens : List Token) : Prop :=
  List.Forall₂ Pattern.Matches patterns tokens

variable {patterns more : List Pattern} {tokens : List Token}

theorem spells_nil_iff : Spells [] tokens ↔ tokens = [] :=
  List.forall₂_nil_left_iff

theorem spells_cons_iff {pattern : Pattern} :
    Spells (pattern :: patterns) tokens ↔
      ∃ line rest, (∀ required ∈ pattern.line, line = required) ∧ Spells patterns rest ∧
        tokens = ⟨pattern.kind, pattern.text, line⟩ :: rest := by
  unfold Spells
  rw [List.forall₂_cons_left_iff]
  constructor
  · rintro ⟨token, rest, ⟨line, rfl, hline⟩, hrest, rfl⟩
    exact ⟨line, rest, hline, hrest, rfl⟩
  · rintro ⟨line, rest, hline, hrest, rfl⟩
    exact ⟨_, rest, ⟨line, rfl, hline⟩, hrest, rfl⟩

/-- The token of an operator on a line. -/
def Operator.token (op : Operator) (line : ℕ) : Token :=
  ⟨(Pattern.operator op).kind, op.symbol, line⟩

theorem spells_operator_iff {op : Operator} :
    Spells (.operator op :: patterns) tokens ↔
      ∃ line rest, Spells patterns rest ∧ tokens = op.token line :: rest := by
  rw [spells_cons_iff]
  simp [Pattern.operator, Operator.token]

theorem spells_mark_iff {text : String} :
    Spells (.mark text :: patterns) tokens ↔
      ∃ line rest, Spells patterns rest ∧ tokens = ⟨.punctuation, text, line⟩ :: rest := by
  rw [spells_cons_iff]
  simp [Pattern.mark]

theorem spells_word_iff {text : String} :
    Spells (.word text :: patterns) tokens ↔
      ∃ line rest, Spells patterns rest ∧ tokens = ⟨.keyword, text, line⟩ :: rest := by
  rw [spells_cons_iff]
  simp [Pattern.word]

theorem spells_wordOn_iff {line : ℕ} {text : String} :
    Spells (.wordOn line text :: patterns) tokens ↔
      ∃ rest, Spells patterns rest ∧ tokens = ⟨.keyword, text, line⟩ :: rest := by
  rw [spells_cons_iff]
  simp [Pattern.wordOn]

theorem spells_identifier_iff {text : String} :
    Spells (.identifier text :: patterns) tokens ↔
      ∃ line rest, Spells patterns rest ∧ tokens = ⟨.identifier, text, line⟩ :: rest := by
  rw [spells_cons_iff]
  simp [Pattern.identifier]

/-- Every token of a spelled text has the form of one of its patterns. -/
theorem Spells.exists_pattern (h : Spells patterns tokens) {token : Token} (hmem : token ∈ tokens) :
    ∃ pattern ∈ patterns, pattern.Matches token := by
  induction h with
  | nil => cases hmem
  | cons hmatches _ ih =>
    rcases List.mem_cons.mp hmem with rfl | hmem
    · exact ⟨_, List.mem_cons_self, hmatches⟩
    · obtain ⟨pattern, hpattern, hmatches⟩ := ih hmem
      exact ⟨pattern, List.mem_cons_of_mem _ hpattern, hmatches⟩

theorem spells_append_iff :
    Spells (patterns ++ more) tokens ↔
      ∃ front back, Spells patterns front ∧ Spells more back ∧ tokens = front ++ back := by
  induction patterns generalizing tokens with
  | nil => simp [spells_nil_iff]
  | cons pattern patterns ih =>
    rw [List.cons_append, spells_cons_iff]
    constructor
    · rintro ⟨line, rest, hline, hrest, rfl⟩
      obtain ⟨front, back, hfront, hback, rfl⟩ := ih.mp hrest
      exact ⟨_ :: front, back, spells_cons_iff.mpr ⟨line, front, hline, hfront, rfl⟩, hback, rfl⟩
    · rintro ⟨front, back, hfront, hback, rfl⟩
      obtain ⟨line, tail, hline, htail, rfl⟩ := spells_cons_iff.mp hfront
      exact ⟨line, tail ++ back, hline, ih.mpr ⟨tail, back, htail, hback, rfl⟩, rfl⟩

/-- The token of a form; on a given line, unless the form says otherwise. -/
def Pattern.token (line : ℕ) (pattern : Pattern) : Token :=
  ⟨pattern.kind, pattern.text, pattern.line.getD line⟩

/-- Every text can be spelled. -/
theorem spells_token (line : ℕ) (text : List Pattern) : Spells text (text.map (Pattern.token line)) := by
  unfold Spells
  rw [List.forall₂_map_right_iff, List.forall₂_same]
  intro pattern _
  refine ⟨pattern.line.getD line, rfl, ?_⟩
  intro required hline
  rw [Option.mem_def.mp hline]
  rfl

theorem spells_concat_mark_iff {text : String} :
    Spells (patterns ++ [.mark text]) tokens ↔
      ∃ line front, Spells patterns front ∧ tokens = front ++ [⟨.punctuation, text, line⟩] := by
  rw [spells_append_iff]
  constructor
  · rintro ⟨front, back, hfront, hback, rfl⟩
    obtain ⟨line, rest, hrest, rfl⟩ := spells_mark_iff.mp hback
    rw [spells_nil_iff.mp hrest]
    exact ⟨line, front, hfront, rfl⟩
  · rintro ⟨line, front, hfront, rfl⟩
    exact ⟨front, _, hfront, spells_mark_iff.mpr ⟨line, [], spells_nil_iff.mpr rfl, rfl⟩, rfl⟩

end SinFrontend
