import SinFrontend.DataType
import SinFrontend.Parser.Basic

/-!
# Reading qualities

Qualities stand before a type name, or behind an `&` after a type, a declared name or an
expression. Both places take the same words; they differ in where the list ends.
-/

namespace SinFrontend.Parser

/-- Stops with the error of a quality that contradicts another one. -/
def rejectConflict {α : Type} (conflict : QualityConflict) (line : Nat) : Parser α :=
  reject (.qualityConflict conflict.quality.word) line

/-- The quality that a reserved word names. The calling conventions are words of their own and
never qualities. -/
def qualityOf (token : Token) : Parser Quality :=
  if ["sincall", "c64", "windows"].contains token.text then
    reject (.illegalQuality token.text) token.line
  else
    match Quality.ofWord? token.text with
    | some quality => return quality
    | none => reject (.expectedSymbolQuality token.text) token.line

/-- Reads the next token as a quality and adds it to a set. -/
def addQuality (qualities : QualitySet) : Parser QualitySet := do
  let token ← advance
  let quality ← qualityOf token
  match qualities.add quality with
  | .ok grown => return grown
  | .error conflict => rejectConflict conflict token.line

/-- Reads the tokens of a class that are next, each as a quality. -/
def qualitiesWhile (test : Token → Bool) : Parser QualitySet := do
  let words := (← get).cursor.ahead.takeWhile test
  words.foldlM (fun qualities _ => addQuality qualities) .empty

/-- The qualities before a type name. The list ends at the first word that begins a type, or that
is not reserved. -/
def prefixedQualities : Parser QualitySet :=
  qualitiesWhile fun token => token.kind == .keyword && !PrimaryKind.isTypeKeyword token.text

/-- The qualities behind an `&` that has been read; there is at least one. The list ends at the
first token that is not a reserved word. -/
def postfixedQualities : Parser QualitySet := do
  let next ← peek
  if next.kind == .keyword then
    qualitiesWhile (·.kind == .keyword)
  else
    reject (.expectedSymbolQuality next.text) next.line

/-- Layers the qualities behind an `&` on a type, if an `&` is next. -/
def withPostfixedQualities (type : DataType) : Parser DataType := do
  if ← takeOperator "&" then
    let line ← previousLine
    match type.addQualities (← postfixedQualities) with
    | (layered, none) => return layered
    | (_, some conflict) => rejectConflict conflict line
  else
    return type

end SinFrontend.Parser
