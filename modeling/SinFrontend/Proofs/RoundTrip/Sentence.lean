import SinFrontend.Proofs.RoundTrip.Command

/-!
# Printed programs are read back

A statement may hold others, as its branches or in a block. What stands behind a sentence matters to
how it is read: a simple one leaves its semicolon to what encloses it, a branch takes it, and an `if`
looks for an `else`.

* `Follows`: what may stand behind a sentence.
* `takes_branch`, `takes_statements`: the two places of a sentence inside another one.
* `takes_sentence`: every well-formed sentence is read back in front of what may follow it.
* `program_print`: so is every program made of well-formed sentences.
-/

namespace SinFrontend

/-! ## The ends of a text -/

/-- A token that may begin a printed statement. -/
structure BeginsStatement (first : Token) : Prop where
  kind : first.kind ≠ .eof
  semicolon : first.isPunctuation ";" = false
  closing : first.isPunctuation Grouping.brace.closing = false
  word : first.isKeyword "else" = false

namespace Sentence

variable {sentence : Sentence} {tokens : List Token}

theorem beginsStatement_word (line : ℕ) {text : String} (hword : text ≠ "else") :
    BeginsStatement ⟨.keyword, text, line⟩ :=
  ⟨by simp, rfl, rfl, by simp [hword]⟩

theorem spells_head (hspells : Spells sentence.print tokens) :
    ∃ first more, tokens = first :: more ∧ BeginsStatement first := by
  cases sentence with
  | declaration declared =>
    rw [print] at hspells
    obtain ⟨line, more, rfl⟩ := Parser.DeclarationTerm.spells_head hspells
    exact ⟨_, more, rfl, beginsStatement_word line (by decide)⟩
  | scopedBlock line body =>
    rw [print] at hspells
    obtain ⟨line', more, -, -, rfl⟩ := spells_cons_iff.mp hspells
    refine ⟨_, more, rfl, ?_⟩
    constructor <;> simp [Pattern.mark, Grouping.opening, Grouping.closing]
  | call line callee args =>
    rw [print] at hspells
    obtain ⟨hcall, -⟩ :=
      (beginsOperand_place {} 0 (Term.call callee args)).spells_startingOn hspells
    obtain ⟨line', more, -, rfl⟩ := spells_operator_iff.mp hcall
    have hkind : (Operator.controlTransfer.token line').kind = .operator := rfl
    refine ⟨_, more, rfl, ?_⟩
    constructor <;> simp [Token.isPunctuation, Token.isKeyword, Token.hasForm, hkind]
  | _ =>
    rw [print] at hspells
    obtain ⟨more, -, rfl⟩ := spells_wordOn_iff.mp hspells
    exact ⟨_, more, rfl, beginsStatement_word _ (by decide)⟩

/-- A text ends in a closing brace or in a semicolon. -/
def EndsClosed (text : List Pattern) : Prop :=
  ∃ front mark, text = front ++ [.mark mark] ∧ (mark = Grouping.brace.closing ∨ mark = ";")

theorem EndsClosed.append {text : List Pattern} (h : EndsClosed text) (before : List Pattern) :
    EndsClosed (before ++ text) := by
  obtain ⟨front, mark, rfl, hmark⟩ := h
  exact ⟨before ++ front, mark, by rw [List.append_assoc], hmark⟩

theorem EndsClosed.cons {text : List Pattern} (h : EndsClosed text) (first : Pattern) :
    EndsClosed (first :: text) :=
  h.append [first]

theorem endsClosed_brace (text : List Pattern) :
    EndsClosed (text ++ [.mark Grouping.brace.closing]) :=
  ⟨text, _, rfl, .inl rfl⟩

/-- A branch ends in a brace, or in the semicolon that is printed behind it. -/
theorem endsClosed_ending (h : sentence.isSimple = false → EndsClosed sentence.print) :
    EndsClosed (sentence.print ++ sentence.ending) := by
  unfold ending
  by_cases hsimple : sentence.isSimple = true
  · rw [if_pos hsimple]
    exact ⟨sentence.print, ";", rfl, .inr rfl⟩
  · rw [if_neg hsimple, List.append_nil]
    exact h (by simpa using hsimple)

/-- A sentence behind which no semicolon is printed ends in a brace or in the semicolon of its last
    branch. -/
theorem endsClosed_print : ∀ sentence : Sentence, sentence.isSimple = false →
    EndsClosed sentence.print
  | .ifThen _ _ branch, _ | .whileLoop _ _ branch, _ => by
    have hbranch := endsClosed_ending (endsClosed_print branch)
    rw [print]
    exact (((hbranch.cons _).append _).cons _).cons _
  | .ifElse _ _ branch otherwise, _ => by
    have hotherwise := endsClosed_ending (endsClosed_print otherwise)
    rw [print]
    exact (((((hotherwise.cons _).append _).cons _).append _).cons _).cons _
  | .functionDefinition _ _ _ body, _ => by
    rw [print]
    exact (((((endsClosed_brace _).cons _).cons _).append _).cons _ |>.append _).cons _
  | .structDefinition _ _ body, _ => by
    rw [print]
    exact ((((endsClosed_brace _).cons _).cons _).cons _).cons _
  | .scopedBlock _ body, _ => by
    rw [print]
    exact (endsClosed_brace _).cons _
  | .construction _ _ _ _, _ => by
    rw [print]
    exact (((endsClosed_brace _).cons _).append _).cons _
  | .includeFile .., h | .declaration .., h | .allocation .., h | .assignment .., h
  | .movement .., h | .returnValue .., h | .call .., h => by cases h

end Sentence

namespace Parser

variable {tokens rest : List Token} {next : Token} {sentence : Sentence}

/-! ## Branches -/

/-- What may stand behind a sentence: a semicolon behind a simple one and behind no other, and no
    `else` behind one that ends in an `if` without it. -/
structure Follows (sentence : Sentence) (next : Token) : Prop where
  semicolon : next.isPunctuation ";" = sentence.isSimple
  word : sentence.endsInIf = true → next.isKeyword "else" = false

/-- The text of a sentence is read back in front of what may follow it. -/
def ReadsSentence (sentence : Sentence) : Prop :=
  ∀ ⦃tokens : List Token⦄ ⦃next : Token⦄, Spells sentence.print tokens → Follows sentence next →
    ∀ rest, Takes (fun parse => parse (.statement false)) tokens (next :: rest) (some sentence.tree)

/-- A branch takes the semicolon behind a simple statement. Behind any other one it looks at the
    token that was read last. -/
theorem takes_branch (h : ReadsSentence sentence)
    (hspells : Spells (sentence.print ++ sentence.ending) tokens)
    (hsemicolon : next.isPunctuation ";" = false)
    (hword : sentence.endsInIf = true → next.isKeyword "else" = false) (rest : List Token) :
    Takes branch tokens (next :: rest) sentence.tree := by
  by_cases hsimple : sentence.isSimple = true
  · rw [Sentence.ending, if_pos hsimple] at hspells
    obtain ⟨line, front, hfront, rfl⟩ := spells_concat_mark_iff.mp hspells
    have hfollows : Follows sentence ⟨.punctuation, ";", line⟩ := by
      refine ⟨?_, fun _ => rfl⟩
      rw [hsimple]
      simp
    intro base passed
    obtain ⟨base', hread⟩ := h hfront hfollows (next :: rest) base passed
    refine ⟨base', ?_⟩
    filter_upwards [hread] with steps h₁
    simp only [List.append_assoc, List.cons_append, List.nil_append, List.reverse_append,
      List.reverse_cons, List.reverse_nil]
    simp [branch, h₁]
  · have hcompound : sentence.isSimple = false := by simpa using hsimple
    rw [Sentence.ending, if_neg hsimple, List.append_nil] at hspells
    have hfollows : Follows sentence next := ⟨hsemicolon.trans hcompound.symm, hword⟩
    obtain ⟨text, mark, htext, hmark⟩ := sentence.endsClosed_print hcompound
    have hlast := hspells
    rw [htext] at hlast
    obtain ⟨line, front, -, rfl⟩ := spells_concat_mark_iff.mp hlast
    intro base passed
    obtain ⟨base', hread⟩ := h hspells hfollows rest base passed
    refine ⟨base', ?_⟩
    filter_upwards [hread] with steps h₁
    simp only [List.append_assoc, List.cons_append, List.nil_append, List.reverse_append,
      List.reverse_cons, List.reverse_nil] at h₁ ⊢
    rcases hmark with rfl | rfl <;> simp [branch, h₁, hsemicolon]

/-- A condition in parentheses, in front of a branch. -/
theorem takes_condition {value : Term} {text : List Pattern}
    (hspells : Spells (.mark "(" :: (value.print {} ++ .mark ")" :: text)) tokens) :
    ∃ front back, tokens = front ++ back ∧ Spells text back ∧
      ∀ (line : ℕ) (missing : String) (next : Token) (rest : List Token),
        Takes (fun parse => condition parse line missing) front (next :: rest) value.tree := by
  obtain ⟨opening, more, hmore, rfl⟩ := spells_mark_iff.mp hspells
  obtain ⟨inside, others, hinside, hothers, rfl⟩ := spells_append_iff.mp hmore
  obtain ⟨closing, back, hback, rfl⟩ := spells_mark_iff.mp hothers
  have hclosing : EndsStatement ⟨.punctuation, ")", closing⟩ := .inr (.inr rfl)
  refine ⟨⟨.punctuation, "(", opening⟩ :: (inside ++ [⟨.punctuation, ")", closing⟩]), back, by simp,
    hback, fun line missing next rest base passed => ⟨base, ?_⟩⟩
  have hread := reads_value hinside (hclosing.closes (next :: rest)) base
    (⟨.punctuation, "(", opening⟩ :: passed)
  filter_upwards [hread] with steps h₁
  simp only [List.append_assoc, List.cons_append, List.nil_append, List.reverse_append,
    List.reverse_cons, List.reverse_nil]
  simp [condition, expectPunctuation, h₁]

/-- What a condition in parentheses and a branch read: the branch begins with a token of its own. -/
theorem takes_conditionAndBranch {value : Term} {branch : Sentence} {text : List Pattern}
    (h : ReadsSentence branch) (hspells : Spells (.mark "(" :: (value.print {} ++ .mark ")" ::
      (branch.print ++ branch.ending ++ text))) tokens) :
    ∃ front middle back, tokens = front ++ (middle ++ back) ∧ Spells text back ∧
      (∀ (line : ℕ) (missing : String) (rest : List Token),
        Takes (fun parse => condition parse line missing) front (middle ++ rest) value.tree) ∧
      ∀ (next : Token) (rest : List Token), next.isPunctuation ";" = false →
        (branch.endsInIf = true → next.isKeyword "else" = false) →
        Takes Parser.branch middle (next :: rest) branch.tree := by
  obtain ⟨front, others, rfl, hothers, hcondition⟩ := takes_condition hspells
  obtain ⟨middle, back, hmiddle, hback, rfl⟩ := spells_append_iff.mp hothers
  refine ⟨front, middle, back, rfl, hback, fun line missing rest => ?_,
    fun next rest hsemicolon hword => takes_branch h hmiddle hsemicolon hword rest⟩
  obtain ⟨sentence, ending, hsentence, -, rfl⟩ := spells_append_iff.mp hmiddle
  obtain ⟨first, more, rfl, -⟩ := Sentence.spells_head hsentence
  exact hcondition line missing first _

theorem takes_ifThen (line : ℕ) {value : Term} {branch : Sentence} (h : ReadsSentence branch)
    (hspells : Spells (.mark "(" :: (value.print {} ++ .mark ")" ::
      (branch.print ++ branch.ending))) tokens)
    (hsemicolon : next.isPunctuation ";" = false) (hword : next.isKeyword "else" = false)
    (rest : List Token) :
    Takes (fun parse => conditional parse line) tokens (next :: rest)
      ⟨.ifThen value.tree branch.tree, line⟩ := by
  rw [← List.append_nil (branch.print ++ branch.ending)] at hspells
  obtain ⟨front, middle, back, rfl, hback, hcondition, hbranch⟩ := takes_conditionAndBranch h hspells
  obtain rfl := spells_nil_iff.mp hback
  intro base passed
  obtain ⟨base', hfirst⟩ := hcondition line "Condition must be enclosed in parens" (next :: rest)
    base passed
  obtain ⟨base'', hsecond⟩ := hbranch next rest hsemicolon (fun _ => hword) base'
    (front.reverse ++ passed)
  refine ⟨base'', ?_⟩
  filter_upwards [hfirst, hsecond] with steps h₁ h₂
  simp only [List.append_nil, List.append_assoc, List.reverse_append]
  simp [conditional, h₁, h₂, hword]

theorem takes_ifElse (line : ℕ) {value : Term} {branch otherwise : Sentence}
    (h : ReadsSentence branch) (hopen : branch.endsInIf = false) (h' : ReadsSentence otherwise)
    (hspells : Spells (.mark "(" :: (value.print {} ++ .mark ")" ::
      ((branch.print ++ branch.ending) ++
        .word "else" :: (otherwise.print ++ otherwise.ending)))) tokens)
    (hsemicolon : next.isPunctuation ";" = false)
    (hword : otherwise.endsInIf = true → next.isKeyword "else" = false) (rest : List Token) :
    Takes (fun parse => conditional parse line) tokens (next :: rest)
      ⟨.ifElse value.tree branch.tree otherwise.tree, line⟩ := by
  obtain ⟨front, middle, back, rfl, hback, hcondition, hbranch⟩ := takes_conditionAndBranch h hspells
  obtain ⟨line', others, hothers, rfl⟩ := spells_word_iff.mp hback
  intro base passed
  obtain ⟨base₁, hfirst⟩ := hcondition line "Condition must be enclosed in parens"
    (⟨.keyword, "else", line'⟩ :: (others ++ next :: rest)) base passed
  obtain ⟨base₂, hsecond⟩ := hbranch ⟨.keyword, "else", line'⟩ (others ++ next :: rest) rfl
    (fun hends => absurd (hopen.symm.trans hends) (by decide)) base₁ (front.reverse ++ passed)
  obtain ⟨base₃, hthird⟩ := takes_branch h' hothers hsemicolon hword rest base₂
    (⟨.keyword, "else", line'⟩ :: (middle.reverse ++ (front.reverse ++ passed)))
  refine ⟨base₃, ?_⟩
  filter_upwards [hfirst, hsecond, hthird] with steps h₁ h₂ h₃
  simp only [List.append_assoc, List.cons_append, List.nil_append, List.reverse_append,
    List.reverse_cons] at h₁ h₂ h₃ ⊢
  simp [conditional, h₁, h₂, h₃]

theorem takes_loop (line : ℕ) {value : Term} {branch : Sentence} (h : ReadsSentence branch)
    (hspells : Spells (.mark "(" :: (value.print {} ++ .mark ")" ::
      (branch.print ++ branch.ending))) tokens)
    (hsemicolon : next.isPunctuation ";" = false)
    (hword : branch.endsInIf = true → next.isKeyword "else" = false) (rest : List Token) :
    Takes (fun parse => loop parse line) tokens (next :: rest)
      ⟨.whileLoop value.tree branch.tree, line⟩ := by
  rw [← List.append_nil (branch.print ++ branch.ending)] at hspells
  obtain ⟨front, middle, back, rfl, hback, hcondition, hbranch⟩ := takes_conditionAndBranch h hspells
  obtain rfl := spells_nil_iff.mp hback
  intro base passed
  obtain ⟨base', hfirst⟩ := hcondition line "Expected a condition" (next :: rest) base passed
  obtain ⟨base'', hsecond⟩ := hbranch next rest hsemicolon hword base' (front.reverse ++ passed)
  refine ⟨base'', ?_⟩
  filter_upwards [hfirst, hsecond] with steps h₁ h₂
  simp only [List.append_nil, List.append_assoc, List.reverse_append]
  simp [loop, h₁, h₂]

/-! ## Blocks -/

/-- A token that ends a block. -/
def EndsBlock (next : Token) : Prop :=
  next.kind = .eof ∨ next.isPunctuation Grouping.brace.closing = true

theorem EndsBlock.semicolon (h : EndsBlock next) : next.isPunctuation ";" = false := by
  rcases h with hend | hclosing
  · exact hasForm_eof hend (by decide)
  · exact isPunctuation_of_ne hclosing (by decide)

theorem EndsBlock.word (h : EndsBlock next) : next.isKeyword "else" = false := by
  rcases h with hend | hclosing
  · exact hasForm_eof hend (by decide)
  · simp [Token.isKeyword, Token.hasForm, kind_of_isPunctuation hclosing]

/-- Behind a simple sentence stands a semicolon, and behind any other one nothing. -/
theorem spells_ending {ending : List Token} (hspells : Spells sentence.ending ending) :
    sentence.isSimple = true ∧ (∃ line, ending = [⟨.punctuation, ";", line⟩]) ∨
      sentence.isSimple = false ∧ ending = [] := by
  unfold Sentence.ending at hspells
  by_cases hsimple : sentence.isSimple = true
  · rw [if_pos hsimple] at hspells
    obtain ⟨line, nothing, hnothing, rfl⟩ := spells_mark_iff.mp hspells
    rw [spells_nil_iff.mp hnothing]
    exact .inl ⟨hsimple, line, rfl⟩
  · rw [if_neg hsimple] at hspells
    exact .inr ⟨by simpa using hsimple, spells_nil_iff.mp hspells⟩

/-- What stands behind a sentence of a block may follow it. -/
theorem exists_follows {ending back : List Token} {more : List Sentence}
    (hending : Spells sentence.ending ending) (hback : Spells (Sentence.printAll more) back)
    (hnext : EndsBlock next) (rest : List Token) :
    ∃ second others, ending ++ (back ++ next :: rest) = second :: others ∧
      Follows sentence second := by
  rcases spells_ending hending with ⟨hsimple, line, rfl⟩ | ⟨hcompound, rfl⟩
  · exact ⟨_, _, rfl, by rw [hsimple]; simp, fun _ => rfl⟩
  · cases more with
    | nil =>
      obtain rfl := spells_nil_iff.mp hback
      exact ⟨next, rest, rfl, hnext.semicolon.trans hcompound.symm, fun _ => hnext.word⟩
    | cons second more =>
      rw [Sentence.printAll, List.append_assoc] at hback
      obtain ⟨front, others, hfront, -, rfl⟩ := spells_append_iff.mp hback
      obtain ⟨first, tail, rfl, hbegins⟩ := Sentence.spells_head hfront
      exact ⟨first, _, rfl, hbegins.semicolon.trans hcompound.symm, fun _ => hbegins.word⟩

/-- The entries of a block that are statements, none of them a `pass`. -/
def Lists (entries : List (Option Statement × ℕ)) (statements : List Statement) : Prop :=
  entries.map (·.1) = statements.map some

/-- Statements are read up to the end of their block. Before the first of them stand the semicolons
    that the statement before it has left. The induction is on the sentences. -/
theorem takes_statements {sentences : List Sentence}
    (h : ∀ sentence ∈ sentences, ReadsSentence sentence)
    (hspells : Spells (Sentence.printAll sentences) tokens) (hnext : EndsBlock next)
    (rest pending : List Token) (hpending : ∀ token ∈ pending, token.isPunctuation ";" = true) :
    ∃ entries, Lists entries (Sentence.trees sentences) ∧
      Takes (fun parse => parse .statements) (pending ++ tokens) (next :: rest) entries := by
  induction sentences generalizing tokens pending with
  | nil =>
    obtain rfl := spells_nil_iff.mp hspells
    refine ⟨[], rfl, .of_rule fun base passed => ⟨base, .of_forall fun steps => ?_⟩⟩
    have hskip := skipSemicolons_run pending hpending hnext.semicolon base passed rest
    have hend : (base.between (pending.reverse ++ passed) (next :: rest)).atEnd = true ∨
        next.isPunctuation Grouping.brace.closing = true :=
      hnext.imp (fun h => by simp [Session.atEnd, Cursor.atEnd, h]) id
    show statementsRule (descend steps) _ = _
    rw [List.append_nil]
    rcases hend with hend | hend <;> simp [statementsRule, hskip, hend]
  | cons sentence more ih =>
    rw [Sentence.printAll] at hspells
    obtain ⟨both, back, hboth, hback, rfl⟩ := spells_append_iff.mp hspells
    obtain ⟨front, ending, hfront, hending, rfl⟩ := spells_append_iff.mp hboth
    obtain ⟨second, others, hahead, hfollows⟩ := exists_follows hending hback hnext rest
    have hsemicolons : ∀ token ∈ ending, token.isPunctuation ";" = true := by
      rcases spells_ending hending with ⟨-, line, rfl⟩ | ⟨-, rfl⟩ <;> simp
    obtain ⟨entries, hlists, hothers⟩ := ih (fun other hmem => h other (List.mem_cons_of_mem _ hmem))
      hback ending hsemicolons
    obtain ⟨first, tail, rfl, hbegins⟩ := Sentence.spells_head hfront
    refine ⟨(some sentence.tree, first.line) :: entries, ?_, .of_rule fun base passed => ?_⟩
    · rw [Lists, List.map_cons, hlists]
      rfl
    obtain ⟨base', hread⟩ := h sentence List.mem_cons_self hfront hfollows others base
      (pending.reverse ++ passed)
    obtain ⟨base'', hentries⟩ := hothers base' ((first :: tail).reverse ++ (pending.reverse ++ passed))
    have hskip := skipSemicolons_run pending hpending hbegins.semicolon base passed
      (tail ++ second :: others)
    have hend : (base.between (pending.reverse ++ passed) (first :: (tail ++ second :: others))).atEnd =
        false := by
      simp [Session.atEnd, Cursor.atEnd, hbegins.kind]
    refine ⟨base'', ?_⟩
    filter_upwards [hread, hentries] with steps h₁ h₂
    show statementsRule (descend steps) _ = _
    simp only [List.append_assoc, List.cons_append, List.nil_append, List.reverse_append,
      List.reverse_cons, hahead] at h₁ h₂ ⊢
    simp [statementsRule, hskip, hend, hbegins.closing, h₁, h₂]

theorem Lists.block_run {entries : List (Option Statement × ℕ)} {statements : List Statement}
    (hlists : Lists entries statements) {parse : Descent} {session later : Session}
    (h : parse .statements session = .ok entries later) :
    block parse session = .ok (.ofList statements) later := by
  have hstatements : entries.filterMap (·.1) = statements := by
    calc entries.filterMap (·.1) = (entries.map (·.1)).filterMap id := by
          rw [List.filterMap_map]
          rfl
      _ = statements := by
          rw [hlists, List.filterMap_map]
          exact List.filterMap_some
  have hpasses : entries.filter (·.1.isNone) = [] := by
    rw [List.filter_eq_nil_iff]
    intro entry hmem
    have : entry.1 ∈ statements.map some := hlists ▸ List.mem_map_of_mem hmem
    obtain ⟨statement, -, hstatement⟩ := List.mem_map.mp this
    simp [← hstatement]
  rw [Parser.block_run session h, hstatements]
  simp [passNotes, hpasses]

/-- A block whose opening brace has been read, and its closing brace. -/
theorem takes_closedBlock {body : List Sentence} (h : ∀ sentence ∈ body, ReadsSentence sentence)
    (hspells : Spells (Sentence.printAll body ++ [.mark Grouping.brace.closing]) tokens)
    (context : String) (next : Token) (rest : List Token) :
    Takes (fun parse => closedBlock parse context) tokens (next :: rest)
      (.ofList (Sentence.trees body)) := by
  obtain ⟨line, inside, hinside, rfl⟩ := spells_concat_mark_iff.mp hspells
  have hends : EndsBlock ⟨.punctuation, Grouping.brace.closing, line⟩ := .inr (by simp)
  obtain ⟨entries, hlists, hread⟩ := takes_statements h hinside hends (next :: rest) [] (by simp)
  intro base passed
  obtain ⟨base', hentries⟩ := hread base passed
  refine ⟨base', ?_⟩
  filter_upwards [hentries] with steps h₁
  have hblock := hlists.block_run h₁
  simp only [List.append_assoc, List.cons_append, List.nil_append, List.reverse_append,
    List.reverse_cons, List.reverse_nil] at hblock ⊢
  simp [closedBlock, hblock, expectPunctuation]

/-! ## Definitions -/

theorem warn_run (message : String) (line code : ℕ) (base : Session) (passed ahead : List Token) :
    warn message line code (base.between passed ahead) =
      .ok () (Session.between { base with
        diagnostics := base.diagnostics ++ [.warning message line code] } passed ahead) := rfl

/-- The body of a definition. An empty one is warned of. -/
theorem takes_definitionBody {body : List Sentence} (h : ∀ sentence ∈ body, ReadsSentence sentence)
    (hspells : Spells (.mark Grouping.brace.opening ::
      (Sentence.printAll body ++ [.mark Grouping.brace.closing])) tokens)
    (missing empty : String) (next : Token) (rest : List Token) :
    Takes (fun parse => definitionBody parse missing empty) tokens (next :: rest)
      (.ofList (Sentence.trees body)) := by
  obtain ⟨line, inside, hinside, rfl⟩ := spells_mark_iff.mp hspells
  have hclosed := takes_closedBlock h hinside "to close definition body" next rest
  obtain ⟨first, more, hfirst⟩ : ∃ first more, inside = first :: more := by
    obtain ⟨line', front, -, rfl⟩ := spells_concat_mark_iff.mp hinside
    cases front <;> exact ⟨_, _, rfl⟩
  subst hfirst
  intro base passed
  by_cases hempty : first.isPunctuation Grouping.brace.closing = true
  · obtain ⟨base', hread⟩ := hclosed { base with diagnostics := base.diagnostics ++
      [.warning empty first.line 111] } (⟨.punctuation, Grouping.brace.opening, line⟩ :: passed)
    refine ⟨base', ?_⟩
    filter_upwards [hread] with steps h₁
    simp only [List.cons_append, List.append_assoc, List.nil_append, List.reverse_cons] at h₁ ⊢
    simp [definitionBody, hempty, warn_run, h₁]
  · obtain ⟨base', hread⟩ := hclosed base (⟨.punctuation, Grouping.brace.opening, line⟩ :: passed)
    refine ⟨base', ?_⟩
    filter_upwards [hread] with steps h₁
    simp only [List.cons_append, List.append_assoc, List.nil_append, List.reverse_cons] at h₁ ⊢
    simp [definitionBody, hempty, h₁]

theorem takes_structDefinition (line : ℕ) {name : String} {body : List Sentence}
    (h : ∀ sentence ∈ body, ReadsSentence sentence)
    (hspells : Spells (.word "struct" :: .identifier name :: .mark Grouping.brace.opening ::
      (Sentence.printAll body ++ [.mark Grouping.brace.closing])) tokens)
    (next : Token) (rest : List Token) :
    Takes (fun parse => definition parse line) tokens (next :: rest)
      ⟨.structDefinition name (.ofList (Sentence.trees body)), line⟩ := by
  obtain ⟨line', more, hmore, rfl⟩ := spells_word_iff.mp hspells
  obtain ⟨line'', others, hothers, rfl⟩ := spells_identifier_iff.mp hmore
  have hbody := takes_definitionBody h hothers "Expected scoped block in struct definition"
    "Empty struct definition" next rest
  intro base passed
  obtain ⟨base', hread⟩ := hbody base
    (⟨.identifier, name, line''⟩ :: ⟨.keyword, "struct", line'⟩ :: passed)
  refine ⟨base', ?_⟩
  filter_upwards [hread] with steps h₁
  simp only [List.append_assoc, List.cons_append, List.nil_append, List.reverse_cons]
  simp [definition, structDefinition, structName, h₁]

theorem takes_functionDefinition (line : ℕ) {typed : TypedName} {params : List DeclarationTerm}
    {body : List Sentence} (hwf : typed.WellFormed)
    (hparams : ∀ param ∈ params, ReadsDeclaration true param)
    (h : ∀ sentence ∈ body, ReadsSentence sentence)
    (hreturns : (Block.ofList (Sentence.trees body)).bodyReturns = .ok true)
    (hspells : Spells (typed.print ++ .mark "(" ::
      (DeclarationTerm.printFirst params ++ .mark ")" :: .mark Grouping.brace.opening ::
        (Sentence.printAll body ++ [.mark Grouping.brace.closing]))) tokens)
    (next : Token) (rest : List Token) :
    Takes (fun parse => definition parse line) tokens (next :: rest)
      ⟨.functionDefinition typed.name typed.tree (DeclarationTerm.trees params)
        (.ofList (Sentence.trees body)), line⟩ := by
  obtain ⟨front, back, hfront, hback, rfl⟩ := spells_append_iff.mp hspells
  obtain ⟨line', more, hmore, rfl⟩ := spells_mark_iff.mp hback
  rw [show DeclarationTerm.printFirst params ++ .mark ")" :: .mark Grouping.brace.opening ::
      (Sentence.printAll body ++ [.mark Grouping.brace.closing]) =
    (DeclarationTerm.printFirst params ++ [.mark ")"]) ++ .mark Grouping.brace.opening ::
      (Sentence.printAll body ++ [.mark Grouping.brace.closing]) by
    rw [List.append_assoc, List.cons_append, List.nil_append]] at hmore
  obtain ⟨list, block, hlist, hblock, rfl⟩ := spells_append_iff.mp hmore
  have hbody := takes_definitionBody h hblock
    "Function definition requires use of curly braces after arguments" "Empty function definition"
    next rest
  obtain ⟨line'', inside, -, rfl⟩ := spells_mark_iff.mp hblock
  obtain ⟨first, others, rfl, -, hstruct⟩ := (beginsWithWord_typedName typed).spells hfront
  intro base passed
  obtain ⟨base₁, htyped⟩ := takes_typedName hwf hfront (endsQualities_mark "(" line')
    "for function name" (list ++ ⟨.punctuation, Grouping.brace.opening, line''⟩ ::
      (inside ++ next :: rest)) base passed
  obtain ⟨base₂, hlist⟩ := takes_formalParameters hparams hlist
    ⟨.punctuation, Grouping.brace.opening, line''⟩ (inside ++ next :: rest) base₁
    (⟨.punctuation, "(", line'⟩ :: ((first :: others).reverse ++ passed))
  obtain ⟨base₃, hread⟩ := hbody base₂
    (list.reverse ++ ⟨.punctuation, "(", line'⟩ :: ((first :: others).reverse ++ passed))
  refine ⟨base₃, ?_⟩
  filter_upwards [htyped, hlist, hread] with steps h₁ h₂ h₃
  simp only [List.append_assoc, List.cons_append, List.nil_append, List.reverse_append,
    List.reverse_cons] at h₁ h₂ h₃ ⊢
  simp [definition, hstruct, functionDefinition, h₁, h₂, h₃, demandReturn, hreturns]

/-! ## All sentences -/

theorem takes_scopedBlock (line : ℕ) {body : List Sentence}
    (h : ∀ sentence ∈ body, ReadsSentence sentence)
    (hspells : Spells ({ Pattern.mark Grouping.brace.opening with line := some line } ::
      (Sentence.printAll body ++ [.mark Grouping.brace.closing])) tokens)
    (next : Token) (rest : List Token) :
    Takes (fun parse => parse (.statement false)) tokens (next :: rest)
      (some ⟨.scopedBlock (.ofList (Sentence.trees body)), line⟩) := by
  obtain ⟨line', more, hline, hmore, rfl⟩ := spells_cons_iff.mp hspells
  obtain rfl : line' = line := hline line rfl
  have hclosed := takes_closedBlock h hmore "to close scoped block" next rest
  refine .of_rule fun base passed => ?_
  obtain ⟨base', hread⟩ := hclosed base (⟨.punctuation, Grouping.brace.opening, line'⟩ :: passed)
  refine ⟨base', ?_⟩
  filter_upwards [hread] with steps h₁
  show statementRule (descend steps) false _ = _
  simp only [List.append_assoc, List.cons_append, List.nil_append, List.reverse_cons]
  simp [statementRule, Pattern.mark, h₁]

/-- A sentence that begins with a keyword is read back, if the rule of the keyword reads what is
    printed behind it. -/
theorem readsSentence_of_word {line : ℕ} {word : String} {text : List Pattern}
    (hprint : sentence.print = .wordOn line word :: text)
    (h : ∀ ⦃tokens : List Token⦄ ⦃next : Token⦄, Spells text tokens → Follows sentence next →
      ∀ rest, Takes (fun parse => keywordStatement parse false ⟨.keyword, word, line⟩) tokens
        (next :: rest) (some sentence.tree)) :
    ReadsSentence sentence := by
  intro tokens next hspells hfollows rest
  rw [hprint] at hspells
  obtain ⟨more, hmore, rfl⟩ := spells_wordOn_iff.mp hspells
  exact takes_keywordStatement (h hmore hfollows rest)

mutual

/-- Every well-formed sentence is read back. -/
theorem takes_sentence : ∀ sentence : Sentence, sentence.WellFormed → ReadsSentence sentence
  | .includeFile line filename, _ =>
    readsSentence_of_word rfl fun _ _ hspells hfollows rest =>
      .map some (takes_includeDirective line hspells (.inl hfollows.semicolon) rest)
  | .declaration declared, hwf => by
    intro tokens next hspells hfollows rest
    rw [Sentence.print] at hspells
    exact takes_declaration false declared hwf hspells (.inl hfollows.semicolon) rest
  | .allocation line typed value, hwf =>
    readsSentence_of_word rfl fun _ _ hspells hfollows rest =>
      .map some (takes_allocation line hwf.1 hwf.2 hspells (.inl hfollows.semicolon) rest)
  | .assignment line op target value, _ =>
    readsSentence_of_word rfl fun _ _ hspells hfollows rest =>
      .map some (takes_assignment line op hspells (.inl hfollows.semicolon) rest)
  | .movement line leftward destination source, _ =>
    readsSentence_of_word rfl fun _ _ hspells hfollows rest =>
      .map some (takes_movement line leftward hspells (.inl hfollows.semicolon) rest)
  | .returnValue line value, _ => by
    refine readsSentence_of_word rfl fun tokens next hspells hfollows rest base passed => ?_
    obtain ⟨base', hread⟩ := takes_returnedValue line hspells hfollows.semicolon rest base passed
    refine ⟨base', ?_⟩
    filter_upwards [hread] with steps h₁
    simp [keywordStatement, h₁, Sentence.tree]
  | .ifThen line condition branch, hwf =>
    readsSentence_of_word rfl fun _ _ hspells hfollows rest =>
      .map some (takes_ifThen line (takes_sentence branch hwf) hspells hfollows.semicolon
        (hfollows.word rfl) rest)
  | .ifElse line condition branch otherwise, hwf =>
    readsSentence_of_word rfl fun _ _ hspells hfollows rest =>
      .map some (takes_ifElse line (takes_sentence branch hwf.2.1) hwf.1
        (takes_sentence otherwise hwf.2.2) hspells hfollows.semicolon hfollows.word rest)
  | .whileLoop line condition branch, hwf =>
    readsSentence_of_word rfl fun _ _ hspells hfollows rest =>
      .map some (takes_loop line (takes_sentence branch hwf) hspells hfollows.semicolon hfollows.word
        rest)
  | .functionDefinition line typed params body, hwf =>
    readsSentence_of_word rfl fun _ next hspells _ rest =>
      .map some (takes_functionDefinition line hwf.1 (takes_params params hwf.2.1)
        (takes_all body hwf.2.2.1) hwf.2.2.2 hspells next rest)
  | .structDefinition line name body, hwf =>
    readsSentence_of_word rfl fun _ next hspells _ rest =>
      .map some (takes_structDefinition line (takes_all body hwf) hspells next rest)
  | .scopedBlock line body, hwf => by
    intro tokens next hspells _ rest
    rw [Sentence.print] at hspells
    exact takes_scopedBlock line (takes_all body hwf) hspells next rest
  | .call line callee args, _ => by
    intro tokens next hspells hfollows rest
    rw [Sentence.print] at hspells
    exact takes_call line hspells (.inl hfollows.semicolon) rest false
  | .construction line target members hasDefault, _ =>
    readsSentence_of_word rfl fun _ next hspells _ rest =>
      .map some (takes_constructStatement line hspells next rest)

theorem takes_all : ∀ sentences : List Sentence, Sentence.AllWellFormed sentences →
    ∀ sentence ∈ sentences, ReadsSentence sentence
  | [], _ => fun _ hmem => by cases hmem
  | first :: more, hwf => by
    intro sentence hmem
    have hfirst := takes_sentence first hwf.1
    have hmore := takes_all more hwf.2
    rcases List.mem_cons.mp hmem with rfl | hmem
    · exact hfirst
    · exact hmore sentence hmem

end

/-! ## Programs -/

/-- At an end of a block the list of its statements is empty. -/
theorem full_statements_of_ends (hnext : EndsBlock next) (base : Session) (passed : List Token) :
    full .statements (base.between passed (next :: rest)) =
      .ok [] (base.between passed (next :: rest)) := by
  show statementsRule (descend _) _ = _
  have hskip := skipSemicolons_run [] (by simp) hnext.semicolon base passed rest
  rw [List.reverse_nil, List.nil_append, List.nil_append] at hskip
  rcases hnext with hend | hend
  · simp [statementsRule, hskip, Session.atEnd, Cursor.atEnd, hend]
  · simp [statementsRule, hskip, hend]

/-- The statements of a printed program, read by the parser for whole trees. -/
theorem full_statements_print {sentences : List Sentence} (hwf : Sentence.AllWellFormed sentences)
    {last : Token} {session : Session} (hs : session.Tidy)
    (hspells : Spells (Sentence.printAll sentences) tokens) (hlast : last.kind = .eof)
    (hahead : session.cursor.ahead = tokens ++ last :: rest) :
    ∃ (entries : List (Option Statement × ℕ)) (later : Session),
      Lists entries (Sentence.trees sentences) ∧ later.cursor.ahead = last :: rest ∧
      full .statements session = .ok entries later := by
  have hself := Session.between_self session
  rw [hahead] at hself
  cases sentences with
  | nil =>
    obtain rfl := spells_nil_iff.mp hspells
    rw [← hself]
    exact ⟨[], _, rfl, rfl, full_statements_of_ends (.inl hlast) session _⟩
  | cons sentence more =>
    obtain ⟨entries, hlists, hread⟩ := takes_statements (takes_all _ hwf) hspells
      (.inl hlast) rest [] (by simp)
    obtain ⟨base, hentries⟩ := hread session session.cursor.passed
    have hready : 0 < session.past + session.left := by
      rw [Sentence.printAll, List.append_assoc] at hspells
      obtain ⟨front, back, hfront, -, rfl⟩ := spells_append_iff.mp hspells
      obtain ⟨first, others, rfl, hbegins⟩ := Sentence.spells_head hfront
      have hleft : 0 < session.left := by
        rw [Session.left_pos_iff, (List.cons.inj hahead).1]
        exact hbegins.kind
      omega
    rw [List.nil_append, hself] at hentries
    exact ⟨entries, _, hlists, rfl, Reads.full hs hready hentries⟩

/-- A printed program is read back, up to the end of input. -/
theorem program_print {sentences : List Sentence} (hwf : Sentence.AllWellFormed sentences)
    {tokens rest : List Token} {last : Token} {session : Session} (hs : session.Tidy)
    (hspells : Spells (Sentence.printAll sentences) tokens) (hlast : last.kind = .eof)
    (hahead : session.cursor.ahead = tokens ++ last :: rest) :
    ∃ later : Session, later.cursor.ahead = last :: rest ∧
      program session = .ok (.ofList (Sentence.trees sentences)) later := by
  obtain ⟨entries, later, hlists, hlater, hread⟩ := full_statements_print hwf hs hspells hlast hahead
  have hblock : statementBlock session = .ok (.ofList (Sentence.trees sentences)) later :=
    hlists.block_run hread
  have hend : later.atEnd = true := by
    rw [Session.atEnd, Cursor.atEnd, (List.cons.inj hlater).1, hlast]
    rfl
  refine ⟨later, hlater, ?_⟩
  simp [program, hblock, hend]

/-- The program `while (a) let x += 2; def int f(decl int n) \x7b return n; \x7d` is read back. -/
theorem program_print_loop :
    ∃ later : Session, later.cursor.ahead = [Token.eof 1] ∧
      program (Session.ofTokens
        [⟨.keyword, "while", 1⟩, ⟨.punctuation, "(", 1⟩, ⟨.identifier, "a", 1⟩,
          ⟨.punctuation, ")", 1⟩, ⟨.keyword, "let", 1⟩, ⟨.identifier, "x", 1⟩, ⟨.operator, "+=", 1⟩,
          ⟨.int, "2", 1⟩, ⟨.punctuation, ";", 1⟩, ⟨.keyword, "def", 1⟩, ⟨.keyword, "int", 1⟩,
          ⟨.identifier, "f", 1⟩, ⟨.punctuation, "(", 1⟩, ⟨.keyword, "decl", 1⟩,
          ⟨.keyword, "int", 1⟩, ⟨.identifier, "n", 1⟩, ⟨.punctuation, ")", 1⟩,
          ⟨.punctuation, "\x7b", 1⟩, ⟨.keyword, "return", 1⟩, ⟨.identifier, "n", 1⟩,
          ⟨.punctuation, ";", 1⟩, ⟨.punctuation, "\x7d", 1⟩]) =
        .ok (.ofList
          [⟨.whileLoop (.identifier "a" false)
              ⟨.compoundAssignment (.identifier "x" false)
                (.binary .plus (.identifier "x" false) (.ofLiteral .int "2") false) .plus, 1⟩, 1⟩,
            ⟨.functionDefinition "f" (.ofKind .int .empty)
              [⟨.declaration (.ofKind .int .empty) "n" none false false [], 1⟩]
              (.ofList [⟨.returnValue (.identifier "n" false), 1⟩]), 1⟩]) later := by
  let int : TypeTerm := .builtin .none ⟨.int, by decide⟩
  let sentences : List Sentence :=
    [.whileLoop 1 (.name "a") (.assignment 1 ⟨.plusEqual, by decide⟩ (.name "x") (.literal .int "2")),
      .functionDefinition 1 ⟨int, "f", .none⟩ [.variable 1 ⟨int, "n", .none⟩ none]
        [.returnValue 1 (some (.name "n"))]]
  have hspells : Spells (Sentence.printAll sentences)
      ((Sentence.printAll sentences).map (Pattern.token 1)) := spells_token 1 _
  have hwf : Sentence.AllWellFormed sentences := by
    refine ⟨trivial, ⟨⟨rfl, trivial⟩, ⟨⟨⟨rfl, trivial⟩, fun h => by cases h⟩, trivial⟩, ⟨trivial, trivial⟩,
      rfl⟩, trivial⟩
  exact program_print hwf (Session.tidy_ofTokens _) hspells
    (show (Token.eof 1).kind = .eof from rfl) rfl

/-- A program that fails is not read. -/
theorem program_ne_ok {session later : Session} {block : Block}
    (h : (match program session with
      | .ok _ _ => false
      | .error _ _ => true) = true) :
    program session ≠ .ok block later := by
  intro hread
  rw [hread] at h
  cases h

/-- Lengths of arrays and names of calls need their parentheses. A length without them that begins
    with a reserved word is taken for a type, and a name without them that is a call is not read. -/
theorem not_program_print_bare :
    (¬ ∀ (length : Term) (tokens : List Token),
      Spells (.wordOn 1 "decl" :: .word "array" :: .operator .less :: (length.print {} ++
        [.mark ",", .word "int", .operator .greater, .identifier "x", .mark ";"])) tokens →
      ∃ later : Session, program (Session.ofTokens tokens) =
        .ok (.ofList [⟨.declaration (.arrayOf (.ofKind .int .empty) (.ofExpression length.tree) .empty)
          "x" none false false [], 1⟩]) later) ∧
    ¬ ∀ (callee : Term) (args : List Term) (tokens : List Token),
      Spells (Pattern.startingOn 1 ((Term.call callee args).print { calleeLevel := 24 }) ++
        [.mark ";"]) tokens →
      ∃ later : Session, program (Session.ofTokens tokens) =
        .ok (.ofList [⟨.call (Term.call callee args).tree, 1⟩]) later := by
  constructor
  · intro h
    obtain ⟨tokens, htokens⟩ : ∃ tokens : List Token, tokens =
        [⟨.keyword, "decl", 1⟩, ⟨.keyword, "array", 1⟩, ⟨.operator, "<", 1⟩, ⟨.keyword, "not", 1⟩,
          ⟨.identifier, "a", 1⟩, ⟨.punctuation, ",", 1⟩, ⟨.keyword, "int", 1⟩, ⟨.operator, ">", 1⟩,
          ⟨.identifier, "x", 1⟩, ⟨.punctuation, ";", 1⟩] := ⟨_, rfl⟩
    obtain ⟨later, hread⟩ := h (.unary ⟨.not, by decide⟩ (.name "a")) tokens (by
      rw [show tokens = List.map (Pattern.token 1) (.wordOn 1 "decl" :: .word "array" ::
        .operator .less :: (Term.print {} (.unary ⟨.not, by decide⟩ (.name "a")) ++
          [.mark ",", .word "int", .operator .greater, .identifier "x", .mark ";"])) by
        rw [htokens]; decide +kernel]
      exact spells_token 1 _)
    exact program_ne_ok (by rw [htokens]; decide +kernel) hread
  · intro h
    obtain ⟨tokens, htokens⟩ : ∃ tokens : List Token, tokens =
        [⟨.operator, "@", 1⟩, ⟨.operator, "@", 1⟩, ⟨.identifier, "f", 1⟩, ⟨.punctuation, "(", 1⟩,
          ⟨.punctuation, ")", 1⟩, ⟨.punctuation, "(", 1⟩, ⟨.punctuation, ")", 1⟩,
          ⟨.punctuation, ";", 1⟩] := ⟨_, rfl⟩
    obtain ⟨later, hread⟩ := h (.call (.name "f") []) [] tokens (by
      rw [show tokens = List.map (Pattern.token 1) (Pattern.startingOn 1
        (Term.print { calleeLevel := 24 } (.call (.call (.name "f") []) [])) ++ [.mark ";"]) by
        rw [htokens]; decide +kernel]
      exact spells_token 1 _)
    exact program_ne_ok (by rw [htokens]; decide +kernel) hread

end Parser

end SinFrontend
