import SinFrontend.Parser.Descent
import SinFrontend.Proofs.Lines.Readings

/-!
# Readers of types on other lines

The readers of qualities and of types use lines only for what they report and note.

* `typeNameRule_renames`: a type is the same on other lines.
-/

namespace SinFrontend.Parser

variable {ρ : ℕ → ℕ} {parse : Descent}

/-! ## Qualities -/

theorem rejectConflict_renames {α : Type} {r : α → α} (conflict : QualityConflict) (line : ℕ) :
    Renames ρ r (rejectConflict conflict line) (rejectConflict conflict (ρ line)) :=
  .reject _ line

theorem qualityOf_renames (token : Token) :
    Renames ρ id (qualityOf token) (qualityOf (token.onLines ρ)) := by
  unfold qualityOf
  refine .ite (.reject _ token.line) ?_
  dsimp only [Token.onLines_text]
  cases Quality.ofWord? token.text with
  | some quality => exact .pure quality
  | none => exact .reject _ token.line

theorem addQuality_renames (qualities : QualitySet) :
    Renames ρ id (addQuality qualities) (addQuality qualities) := by
  unfold addQuality
  refine advance_renames.bind_onLines fun token => (qualityOf_renames token).bind fun quality => ?_
  cases qualities.add quality with
  | ok grown => exact .pure grown
  | error conflict => exact rejectConflict_renames conflict token.line

theorem addQualities_renames (words : List Token) (qualities : QualitySet) :
    Renames ρ id (words.foldlM (fun qualities _ => addQuality qualities) qualities)
      ((words.map (Token.onLines ρ)).foldlM (fun qualities _ => addQuality qualities)
        qualities) := by
  induction words generalizing qualities with
  | nil => exact .pure qualities
  | cons word words ih =>
    rw [List.map_cons]
    simp only [List.foldlM_cons]
    exact (addQuality_renames qualities).bind ih

theorem qualitiesWhile_renames {test : Token → Bool}
    (h : ∀ token : Token, test (token.onLines ρ) = test token) :
    Renames ρ id (qualitiesWhile test) (qualitiesWhile test) := by
  intro s
  have hwords : (s.onLines ρ).cursor.ahead.takeWhile test =
      (s.cursor.ahead.takeWhile test).map (Token.onLines ρ) := by
    rw [Session.onLines_cursor, Cursor.onLines_ahead, List.takeWhile_map]
    congr 2
    exact funext h
  have hread := addQualities_renames (ρ := ρ) (s.cursor.ahead.takeWhile test) .empty s
  rwa [← hwords] at hread

theorem prefixedQualities_renames : Renames ρ id prefixedQualities prefixedQualities :=
  qualitiesWhile_renames fun _ => rfl

theorem postfixedQualities_renames : Renames ρ id postfixedQualities postfixedQualities := by
  unfold postfixedQualities
  refine peek_renames.bind_onLines fun next => .ite ?_ (.reject _ next.line)
  exact qualitiesWhile_renames fun _ => rfl

theorem withPostfixedQualities_renames (type : DataType) :
    Renames ρ id (withPostfixedQualities type) (withPostfixedQualities type) := by
  unfold withPostfixedQualities
  refine (takeOperator_renames "&").bind fun taken => .ite ?_ (.pure type)
  refine previousLine_renames.bind_onLines fun line => ?_
  refine postfixedQualities_renames.bind fun qualities => ?_
  rcases type.addQualities qualities with ⟨layered, _ | conflict⟩
  · exact .pure layered
  · exact rejectConflict_renames conflict line

/-! ## Parts of types -/

theorem expectClosingAngle_renames : Renames ρ id expectClosingAngle expectClosingAngle := by
  unfold expectClosingAngle
  refine peek_renames.bind_onLines fun next => .ite ?_ (.reject _ next.line)
  dsimp only [Token.onLines_text]
  rcases next.text.toList with _ | ⟨c, _ | ⟨d, more⟩⟩
  · exact moveAdvance_renames
  · exact moveAdvance_renames
  · exact move_renames fun cursor => cursor.onLines_replaceText ρ _

theorem expectOpeningAngle_renames (rule : String) (line : ℕ) :
    Renames ρ id (expectOpeningAngle rule line) (expectOpeningAngle rule (ρ line)) := by
  unfold expectOpeningAngle
  exact (takeOperator_renames "<").bind fun taken => .ite (.pure _) (.reject _ line)

theorem simpleType_renames (word : Token) (qualities : QualitySet) :
    Renames ρ id (simpleType word qualities) (simpleType (word.onLines ρ) qualities) := by
  unfold simpleType
  refine .ite ?_ (.reject _ word.line)
  dsimp only [Token.onLines_text, Token.onLines_kind]
  split
  · exact .ite (.reject _ word.line) (.pure _)
  · exact .pure _

theorem noteVainQualities_renames (type : DataType) (line : ℕ) :
    Renames ρ id (noteVainQualities type line) (noteVainQualities type (ρ line)) := by
  unfold noteVainQualities
  refine (Renames.forM (fun _ => note_renames _ line) _).bind fun _ => ?_
  exact .ite (warn_renames _ line 3) (.pure _)

/-! ## Types -/

section

variable (h : RenamesAll ρ parse)

include h

theorem containedType_renames : Renames ρ id (containedType parse) (containedType parse) :=
  (h .typeName).bind withPostfixedQualities_renames

theorem enclosedType_renames : Renames ρ id (enclosedType parse) (enclosedType parse) :=
  (containedType_renames h).bind fun type => expectClosingAngle_renames.bind fun _ => .pure type

theorem indirectType_renames (make : DataType → DataType) (line : ℕ) :
    Renames ρ id (indirectType parse make line) (indirectType parse make (ρ line)) :=
  (expectOpeningAngle_renames _ line).bind fun _ =>
    (enclosedType_renames h).bind fun type => .pure (make type)

theorem arrayType_renames (qualities : QualitySet) (line : ℕ) :
    Renames ρ id (arrayType parse qualities line) (arrayType parse qualities (ρ line)) := by
  unfold arrayType
  refine (expectOpeningAngle_renames _ line).bind fun _ => ?_
  refine peek_renames.bind_onLines fun next => .ite ?_ ?_
  · exact (enclosedType_renames h).bind fun type => .pure _
  · refine (h (.expression {})).bind fun length => ?_
    refine (takePunctuation_renames ",").bind fun taken => .ite ?_ (.reject_bind _ line)
    exact (enclosedType_renames h).bind fun type => .pure _

theorem tupleMembers_renames : Renames ρ id (tupleMembers parse) (tupleMembers parse) := by
  unfold tupleMembers
  refine peek_renames.bind_onLines fun next => .ite ?_ (.pure _)
  refine (containedType_renames h).bind fun member => ?_
  have hmore : Renames ρ id (do return member :: (← parse .members))
      (do return member :: (← parse .members)) := (h .members).bind fun members => .pure _
  refine (takePunctuation_renames ",").bind fun taken => .ite hmore ?_
  exact peek_renames.bind_onLines fun next => .ite hmore (.reject_bind _ next.line)

theorem tupleType_renames (qualities : QualitySet) (line : ℕ) :
    Renames ρ id (tupleType parse qualities line) (tupleType parse qualities (ρ line)) := by
  unfold tupleType
  refine (expectOpeningAngle_renames _ line).bind fun _ => (h .members).bind fun members => ?_
  refine expectClosingAngle_renames.bind fun _ => ?_
  rcases members with _ | ⟨member, _ | ⟨second, members⟩⟩
  · exact .reject_bind _ line
  · exact (note_renames _ line).bind fun _ => .pure _
  · exact .pure _

theorem typeFrom_renames (qualities : QualitySet) (word : Token) :
    Renames ρ id (typeFrom parse qualities word) (typeFrom parse qualities (word.onLines ρ)) := by
  unfold typeFrom
  refine .ite ?_ (.ite ?_ (.ite ?_ (.ite ?_ ?_)))
  · exact indirectType_renames h _ word.line
  · exact indirectType_renames h _ word.line
  · exact arrayType_renames h qualities word.line
  · exact tupleType_renames h qualities word.line
  · exact simpleType_renames word qualities

theorem typeNameRule_renames : Renames ρ id (typeNameRule parse) (typeNameRule parse) := by
  unfold typeNameRule
  refine currentLine_renames.bind_onLines fun line => ?_
  refine prefixedQualities_renames.bind fun qualities => ?_
  refine advance_renames.bind_onLines fun word => ?_
  refine (typeFrom_renames h qualities word).bind fun type => ?_
  exact (noteVainQualities_renames type line).bind fun _ => .pure type

end

end SinFrontend.Parser
