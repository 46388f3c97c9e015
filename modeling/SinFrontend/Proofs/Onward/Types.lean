import SinFrontend.Parser.Descent
import SinFrontend.Proofs.Onward

/-!
# Where readers of types leave a session

The readers of qualities and of types end onward of where they start, as long as the readings that
they ask for do. A type never ends behind a semicolon, so a closing bracket is taken off a token
only behind a token of the type.

* `LeadsAll`: readings that end onward, each in its way.
* `typeNameRule_leadsFirst`: a type ends behind a word or a closing bracket.
-/

namespace SinFrontend

namespace Parser

/-- Readings that all end onward: types, expressions and statements with their first token read. A
    type does not end behind a semicolon, nor do the members behind anything else of their type. -/
structure LeadsAll (loose : Prop) (parse : Descent) : Prop where
  typeName : LeadsFirst loose (fun _ => Session.Firm) (parse .typeName)
  members : Leads loose Session.Firm (fun _ => Session.Firm) (parse .members)
  expression : ∀ context, LeadsFirst loose (fun _ _ => True) (parse (.expression context))
  operations : ∀ left floor context, LeadsOn loose (parse (.operations left floor context))
  elements : ∀ context, LeadsOn loose (parse (.elements context))
  initializers : LeadsOn loose (parse .initializers)
  statement : ∀ isParameter, LeadsFirst loose (fun _ _ => True) (parse (.statement isParameter))
  statements : LeadsOn loose (parse .statements)
  parameters : LeadsOn loose (parse .parameters)

variable {loose : Prop} {parse : Descent}

/-! ## Qualities -/

theorem qualityOf_leads (pre : Session → Prop) (token : Token) :
    Leads loose pre (fun _ s => pre s ∧ token.isPunctuation ";" = false) (qualityOf token) := by
  unfold qualityOf
  refine .ite (fun _ => .reject) fun _ => ?_
  split
  next quality hword =>
    refine .pure fun s hpre => ⟨hpre, ?_⟩
    rw [Bool.eq_false_iff]
    intro hsemicolon
    rw [text_of_isPunctuation hsemicolon] at hword
    cases hword
  next => exact .reject

theorem addQuality_leadsFirst (qualities : QualitySet) :
    LeadsFirst loose (fun _ => Session.Firm) (addQuality qualities) := by
  unfold addQuality
  refine advance_leadsFirst.bind fun token => (qualityOf_leads _ token).bind fun quality => ?_
  split
  · refine .pure fun s hs => ?_
    rw [Session.Firm, hs.1.1]
    exact hs.2
  · exact .reject

section

variable {pre : Session → Prop} (hpre : ∀ s : Session, s.Firm → pre s)

include hpre

theorem addQualities_leads (words : List Token) (qualities : QualitySet) :
    Leads loose pre (fun _ => pre)
      (words.foldlM (fun qualities _ => addQuality qualities) qualities) := by
  induction words generalizing qualities with
  | nil => exact .pure fun _ => id
  | cons word words ih =>
    simp only [List.foldlM_cons]
    exact ((addQuality_leadsFirst qualities).leads.mono (fun _ => id) fun _ => hpre).bind ih

theorem qualitiesWhile_leads (test : Token → Bool) :
    Leads loose pre (fun _ => pre) (qualitiesWhile test) :=
  fun s hs hholds => addQualities_leads hpre (s.cursor.ahead.takeWhile test) .empty hs hholds

omit hpre in
/-- Either a quality is read first, or what follows begins here. -/
theorem qualitiesWhile_leadsFirst {α : Type} {post : α → Session → Prop} (test : Token → Bool)
    {f : QualitySet → Parser α} (hf : ∀ qualities, LeadsFirst loose post (f qualities)) :
    LeadsFirst loose post (do f (← qualitiesWhile test)) := by
  intro s hs
  have hrun : (qualitiesWhile test >>= f) s = ((s.cursor.ahead.takeWhile test).foldlM
      (fun qualities _ => addQuality qualities) QualitySet.empty >>= f) s := rfl
  rw [hrun]
  cases s.cursor.ahead.takeWhile test with
  | nil => exact hf .empty hs
  | cons word words =>
    rw [List.foldlM_cons, bind_assoc]
    exact ((addQuality_leadsFirst .empty).bind fun grown =>
      (addQualities_leads (fun _ => id) words grown).bind fun qualities => (hf qualities).leads) hs

theorem postfixedQualities_leads : Leads loose pre (fun _ => pre) postfixedQualities := by
  intro s hs hholds
  simp only [postfixedQualities, bind_run, peek_run, ite_run]
  split
  · exact qualitiesWhile_leads hpre _ hs hholds
  · exact .rejected .refl

theorem withPostfixedQualities_leads (type : DataType) :
    Leads loose pre (fun _ => pre) (withPostfixedQualities type) := by
  unfold withPostfixedQualities
  refine (takeOperator_firm "&").bind fun taken => ?_
  cases taken with
  | false => exact .pure fun _ => id
  | true =>
    refine (looks_previousLine.leads.mono hpre fun _ _ => id).bind fun line => ?_
    refine (postfixedQualities_leads hpre).bind fun qualities => ?_
    split
    · exact .pure fun _ => id
    · exact .reject

end

/-! ## Parts of types -/

theorem expectClosingAngle_leads :
    Leads loose Session.Firm (fun _ => Session.Firm) expectClosingAngle := by
  intro s hs hfirm
  simp only [expectClosingAngle, bind_run, peek_run, ite_run]
  split
  next hangle =>
    have hkind := kind_of_isClosingAngle hangle
    have hadvance : (s.on .advance).Firm :=
      hs.firm_advance (by simp [hkind]) (by simp [Token.isPunctuation, Token.hasForm, hkind])
    rcases htext : s.cursor.current.text.toList with _ | ⟨c, _ | ⟨d, ds⟩⟩
    · exact .ok (.advance .refl) hadvance
    · exact .ok (.advance .refl) hadvance
    · refine .ok (.split .refl hangle hfirm htext (List.cons_ne_nil _ _)) ?_
      rcases s with ⟨⟨_ | ⟨last, passed⟩, current, rest⟩, _, _⟩
      · show Token.isPunctuation { current with text := _ } ";" = false
        simp [Token.isPunctuation, Token.hasForm, show current.kind = .operator from hkind]
      · exact hfirm
  next => exact .rejected .refl

theorem expectOpeningAngle_leads (rule : String) (line : ℕ) :
    Leads loose (fun _ => True) (fun _ => Session.Firm) (expectOpeningAngle rule line) := by
  unfold expectOpeningAngle
  refine (takeOperator_firm "<").bind fun taken => ?_
  cases taken with
  | true => exact .pure fun _ => id
  | false => exact .reject

/-- A word that names a type is no semicolon. -/
theorem simpleType_leads (word : Token) (qualities : QualitySet) :
    Leads loose (fun s => s.cursor.previous = word) (fun _ => Session.Firm)
      (simpleType word qualities) := by
  unfold simpleType
  refine .ite (fun hword => ?_) fun _ => .reject
  have hfirm : ∀ s : Session, s.cursor.previous = word → s.Firm := by
    intro s hs
    rw [Session.Firm, hs, Token.isPunctuation, Token.hasForm]
    cases hkind : word.kind <;> simp_all
  split
  · exact .ite (fun _ => .reject) fun _ => .pure hfirm
  · exact .pure hfirm

theorem noteVainQualities_leads (type : DataType) (line : ℕ) :
    Leads loose Session.Firm (fun _ => Session.Firm) (noteVainQualities type line) := by
  have hfirm : ∀ s t : Session, s.cursor = t.cursor → s.Firm → t.Firm := fun s t hsame hs => by
    rwa [Session.Firm, ← hsame]
  unfold noteVainQualities
  refine (forM_leads (fun _ => record_leads _ hfirm) _).bind fun _ => .ite (fun _ => ?_) fun _ => ?_
  · exact record_leads _ hfirm
  · exact .pure fun _ => id

/-! ## Contained types -/

section

variable (h : LeadsAll loose parse)

include h

theorem containedType_leads :
    Leads loose (fun _ => True) (fun _ => Session.Firm) (containedType parse) :=
  h.typeName.leads.bind (withPostfixedQualities_leads fun _ => id)

theorem enclosedType_leads :
    Leads loose (fun _ => True) (fun _ => Session.Firm) (enclosedType parse) :=
  (containedType_leads h).bind fun _ => expectClosingAngle_leads.bind fun _ => .pure fun _ => id

theorem indirectType_leads (make : DataType → DataType) (line : ℕ) :
    Leads loose (fun _ => True) (fun _ => Session.Firm) (indirectType parse make line) :=
  (expectOpeningAngle_leads _ line).bind fun _ =>
    (enclosedType_leads h).anywhere.bind fun _ => .pure fun _ => id

theorem arrayType_leads (qualities : QualitySet) (line : ℕ) :
    Leads loose (fun _ => True) (fun _ => Session.Firm) (arrayType parse qualities line) := by
  have helement (make : DataType → DataType) : Leads loose (fun _ => True) (fun _ => Session.Firm)
      (do return make (← enclosedType parse)) :=
    (enclosedType_leads h).bind fun _ => .pure fun _ => id
  unfold arrayType
  refine (expectOpeningAngle_leads _ line).on.leads.bind fun _ => ?_
  refine looks_peek.leads.bind fun next => .ite (fun _ => ?_) fun _ => ?_
  · exact helement fun type => .arrayOf type .unspecified qualities
  · refine (h.expression {}).on.leads.bind fun length => ?_
    refine (takePunctuation_leads ",").leads.bind fun taken => .ite (fun _ => ?_) fun _ => ?_
    · exact helement fun type => .arrayOf type (.ofExpression length) qualities
    · exact Leads.reject.bind fun _ => helement _

theorem tupleMembers_leads :
    Leads loose Session.Firm (fun _ => Session.Firm) (tupleMembers parse) := by
  have hmore (member : DataType) : Leads loose Session.Firm (fun _ => Session.Firm)
      (do return member :: (← parse .members)) :=
    h.members.bind fun _ => .pure fun _ => id
  unfold tupleMembers
  refine looks_peek.leads.bind fun next => ?_
  refine .ite (fun _ => ?_) fun _ => .pure fun _ => id
  refine (containedType_leads h).anywhere.bind fun member => ?_
  refine (takePunctuation_firm (by decide)).bind fun taken => ?_
  cases taken with
  | true => exact hmore member
  | false =>
    refine looks_peek.leads.bind fun next => ?_
    exact .ite (fun _ => hmore member) fun _ => Leads.reject.bind fun _ => hmore member

theorem tupleType_leads (qualities : QualitySet) (line : ℕ) :
    Leads loose (fun _ => True) (fun _ => Session.Firm) (tupleType parse qualities line) := by
  have hnote (message : String) (line : ℕ) :
      Leads loose Session.Firm (fun _ => Session.Firm) (note message line) :=
    record_leads _ fun s t hsame hs => by rwa [Session.Firm, ← hsame]
  unfold tupleType
  refine (expectOpeningAngle_leads _ line).bind fun _ => ?_
  refine h.members.bind fun members => ?_
  refine expectClosingAngle_leads.bind fun _ => ?_
  split
  · exact Leads.reject.bind fun _ => .pure fun _ => id
  · exact (hnote _ line).bind fun _ => .pure fun _ => id
  · exact .pure fun _ => id

theorem typeFrom_leads (qualities : QualitySet) (word : Token) :
    Leads loose (fun s => s.cursor.previous = word) (fun _ => Session.Firm)
      (typeFrom parse qualities word) := by
  unfold typeFrom
  refine .ite (fun _ => ?_) fun _ => .ite (fun _ => ?_) fun _ => .ite (fun _ => ?_) fun _ =>
    .ite (fun _ => ?_) fun _ => ?_
  · exact (indirectType_leads h _ _).anywhere
  · exact (indirectType_leads h _ _).anywhere
  · exact (arrayType_leads h _ _).anywhere
  · exact (tupleType_leads h _ _).anywhere
  · exact simpleType_leads word qualities

/-- A type begins with qualities or with its word, and reads at least the one or the other. -/
theorem typeNameRule_leadsFirst :
    LeadsFirst loose (fun _ => Session.Firm) (typeNameRule parse) := by
  have hword (line : ℕ) (qualities : QualitySet) : LeadsFirst loose (fun _ => Session.Firm)
      (do
        let type ← typeFrom parse qualities (← advance)
        noteVainQualities type line
        return type) :=
    advance_leadsFirst.bind fun word =>
      ((typeFrom_leads h qualities word).mono (fun _ hs => hs.1) fun _ _ => id).bind fun type =>
        (noteVainQualities_leads type line).bind fun _ => .pure fun _ => id
  exact fun s hs => qualitiesWhile_leadsFirst _ (hword s.cursor.current.line) hs

end

end Parser

end SinFrontend
