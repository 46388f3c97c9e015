import Mathlib.Data.List.Basic
import SinFrontend.Expression
import SinFrontend.Grouping
import SinFrontend.Token

/-!
# The words of expressions

An expression tree keeps its operands and operators, but not the symbols that group them. Its words
are what it keeps of its text, from left to right; the words of a list of tokens are what is left
of them without those symbols.

* `Expression.yield`: the words of a tree.
* `strip`: the words of tokens.
* `Leaves`: the words of tokens behind which anything may follow. They add up.
-/

namespace SinFrontend

/-- An operand, or the text of an operator or of an attribute. -/
inductive Word where
  | name (text : String)
  | literal (kind : PrimaryKind) (text : String)
  | symbol (text : String)
  deriving DecidableEq

/-! ## Words of trees -/

namespace Expression

mutual

/-- The words of an expression, from left to right. A type or a construction shows none. -/
def yield : Expression → List Word
  | literal type value _ => [.literal type.kind value]
  | identifier name _ => [.name name]
  | unary op operand _ => .symbol op.symbol :: operand.yield
  | binary op left right _ => left.yield ++ .symbol op.symbol :: right.yield
  | indexed target index _ => target.yield ++ index.yield
  | procedure name args _ => name.yield ++ yields args
  | call name args _ => .symbol "@" :: (name.yield ++ yields args)
  | list _ elements _ _ => yields elements
  | attributeName attr _ _ => [.symbol attr.word]
  | attributeSelection selected attr _ _ => selected.yield ++ [.symbol ":", .symbol attr.word]
  | typecast operand _ _ => operand.yield ++ [.symbol "as"]
  | typeName _ _ | construction _ _ _ _ => []
termination_by structural expression => expression

/-- The words of expressions, one after another. -/
def yields : List Expression → List Word
  | [] => []
  | expression :: rest => expression.yield ++ yields rest
termination_by structural expressions => expressions

end

@[simp] theorem yield_setConst (expression : Expression) (constant : Bool) :
    (expression.setConst constant).yield = expression.yield := by
  cases expression <;> rfl

/-- Qualities change no words. -/
theorem yield_overrideQualities (expression : Expression) (qualities : QualitySet) :
    (expression.overrideQualities qualities).1.yield = expression.yield := by
  cases expression <;> rfl

end Expression

/-! ## Words of tokens -/

/-- The symbols that only group what they enclose or separate. -/
def groupingSymbols : List String :=
  ["(", ")", "[", "]", "\x7b", "\x7d", ","]

/-- The words of a token: itself, unless it groups something or is the word `constexpr`. -/
def Token.words (token : Token) : List Word :=
  match token.kind with
  | .identifier => [.name token.text]
  | .int => [.literal .int token.text]
  | .float => [.literal .float token.text]
  | .str => [.literal .string token.text]
  | .char => [.literal .char token.text]
  | .bool => [.literal .bool token.text]
  | .keyword => if token.text = "constexpr" then [] else [.symbol token.text]
  | .operator | .punctuation =>
    if groupingSymbols.contains token.text then [] else [.symbol token.text]
  | .eof => []

/-- Whether a token is the sign before `constexpr`. -/
def Token.marks (token : Token) (rest : List Token) : Bool :=
  token.isOperator "&" && rest.head?.any (·.isKeyword "constexpr")

/-- The words of tokens. The sign before `constexpr` is none of them. -/
def strip : List Token → List Word
  | [] => []
  | token :: rest => (if token.marks rest then [] else token.words) ++ strip rest

/-- Tokens have words, whatever follows: the last of them is not the sign before `constexpr`. -/
structure Leaves (tokens : List Token) (words : List Word) : Prop where
  strip_eq : strip tokens = words
  settled : ∀ last ∈ tokens.getLast?, last.isOperator "&" = false

variable {tokens more : List Token} {words words' : List Word} {token : Token}

theorem Leaves.nil : Leaves [] [] :=
  ⟨rfl, nofun⟩

theorem Leaves.singleton (h : token.isOperator "&" = false) : Leaves [token] token.words := by
  refine ⟨by simp [strip, Token.marks, h], ?_⟩
  rintro last ⟨⟩
  exact h

/-- The sign and the word behind it leave no words. -/
theorem Leaves.mark (hsign : token.isOperator "&" = true) {word : Token}
    (hword : word.isKeyword "constexpr" = true) : Leaves [token, word] [] := by
  have hkind : word.kind = .keyword ∧ word.text = "constexpr" := by
    simpa [Token.isKeyword, Token.hasForm] using hword
  refine ⟨?_, ?_⟩
  · simp [strip, Token.marks, hsign, hword, Token.words, hkind]
  · rintro last ⟨⟩
    simp [Token.isOperator, Token.hasForm, hkind]

theorem Leaves.append (h : Leaves tokens words) (h' : Leaves more words') :
    Leaves (tokens ++ more) (words ++ words') := by
  obtain ⟨rfl, hsettled⟩ := h
  obtain ⟨rfl, hsettled'⟩ := h'
  constructor
  · induction tokens with
    | nil => rfl
    | cons token tokens ih =>
      have hmarks : token.marks (tokens ++ more) = token.marks tokens := by
        cases tokens with
        | nil =>
          have htoken := hsettled token rfl
          simp [Token.marks, htoken]
        | cons => rfl
      have hrest : strip (tokens ++ more) = strip tokens ++ strip more := by
        refine ih fun last hlast => hsettled last ?_
        rw [Option.mem_def] at hlast ⊢
        rw [List.getLast?_cons, hlast]
        rfl
      simp only [List.cons_append, strip, hmarks, hrest, List.append_assoc]
  · intro last hlast
    cases more with
    | nil => exact hsettled last (by simpa using hlast)
    | cons token more =>
      refine hsettled' last ?_
      rw [Option.mem_def] at hlast ⊢
      rwa [List.getLast?_append_of_ne_nil _ (by simp)] at hlast

/-- An operator in front of its right operand. The sign `&` is an operator there if no word
    `constexpr` follows. -/
theorem Leaves.cons (h : Leaves tokens words) (hne : tokens ≠ [])
    (hsign : token.isOperator "&" = true → tokens.head?.any (·.isKeyword "constexpr") = false) :
    Leaves (token :: tokens) (token.words ++ words) := by
  obtain ⟨rfl, hsettled⟩ := h
  have hmarks : token.marks tokens = false := by
    cases hop : token.isOperator "&" with
    | false => simp [Token.marks, hop]
    | true => simp only [Token.marks, hsign hop, Bool.and_false]
  refine ⟨by simp [strip, hmarks], fun last hlast => hsettled last ?_⟩
  obtain ⟨first, rest, rfl⟩ := List.exists_cons_of_ne_nil hne
  simpa using hlast

end SinFrontend
