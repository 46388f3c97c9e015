import Mathlib.Algebra.Order.BigOperators.Group.List
import Mathlib.Algebra.Order.Group.Nat
import Mathlib.Data.List.Forall2
import SinFrontend.Proofs.Lines.Statements

/-!
# Only shared lines matter

Two lists of the same words, of which the same are on one line with each other, are read alike:
what the numbers of these lines are shows in nothing but the lines of what is read, of errors and
of diagnostics. The lines of the one list become those of the other by an injective function, and
along that the whole run is renamed.

Symbols are left out. Among the symbols of one name the one with the least line is found, so they
depend on the order of lines.

* `Compilation.round_onLines`, `readStatements_onLines`: a round and a run of rounds on other lines.
* `Token.SameLayout`: two lists of the same words, of which the same share a line.
* `SameLayout.exists_onLines`: these are one list, and that list on other lines.
* `outcome_of_sameLayout`: they lead to the same trees, errors and diagnostics, on other lines.
-/

namespace SinFrontend

variable {ρ : ℕ → ℕ}

/-! ## Rounds on other lines -/

namespace Compilation

/-- The statements, errors and `pass` statements so far, on other lines. -/
def Progress.onLines (ρ : ℕ → ℕ) (progress : Progress) : Progress where
  program := progress.program.onLines ρ
  errors := progress.errors.map (CompileError.onLines ρ)
  passes := progress.passes.map ρ

/-- The end of a round, or of all rounds, on other lines. -/
def renamed (ρ : ℕ → ℕ) :
    Except Failure (Progress × Session) → Except Failure (Progress × Session)
  | .ok (progress, session) => .ok (progress.onLines ρ, session.onLines ρ)
  | .error failure => .error (failure.onLines ρ)

variable (progress : Progress) (session : Session)

/-- What a round does next depends on how many statements failed, and not on their lines. -/
theorem round_onLines (hρ : ρ.Injective) (budget : ℕ) :
    round budget (progress.onLines ρ) (session.onLines ρ) =
      renamed ρ (round budget progress session) := by
  unfold round
  rw [Parser.topLevelStatement_renames hρ session]
  cases Parser.topLevelStatement session with
  | ok statement later =>
    cases statement with
    | none =>
      simp only [Parser.renamed, Option.map_none, Session.onLines_cursor, Cursor.onLines_previous,
        Token.isKeyword_onLines, Token.onLines_line, renamed]
      split <;> simp [Progress.onLines]
    | some statement => simp [Parser.renamed, renamed, Progress.onLines, Block.onLines_push]
  | error failure later =>
    cases failure with
    | unfinished => rfl
    | rejected error =>
      simp only [Parser.renamed, Failure.onLines, Progress.onLines, List.length_append,
        List.length_map, List.length_singleton, Session.onLines_synchronize]
      split
      · rfl
      · simp [renamed, Progress.onLines]

theorem readStatements_onLines (hρ : ρ.Injective) (budget rounds : ℕ) :
    readStatements budget rounds (progress.onLines ρ) (session.onLines ρ) =
      renamed ρ (readStatements budget rounds progress session) := by
  induction rounds generalizing progress session with
  | zero => rfl
  | succ rounds ih =>
    rw [readStatements, readStatements, Session.onLines_atEnd]
    split
    · rfl
    · rw [round_onLines progress session hρ]
      rcases round budget progress session with failure | ⟨progress, session⟩
      · rfl
      · exact ih progress session

theorem diagnosticsOf_onLines :
    diagnosticsOf (progress.onLines ρ) (session.onLines ρ) =
      (diagnosticsOf progress session).map (Diagnostic.onLines ρ) := by
  have hnotes : (progress.passes.map ρ).map (Diagnostic.note Parser.passNote) =
      (progress.passes.map (Diagnostic.note Parser.passNote)).map (Diagnostic.onLines ρ) := by
    rw [List.map_map, List.map_map]
    rfl
  simp only [diagnosticsOf, Progress.onLines, Block.onLines_isEmpty, Session.onLines_diagnostics,
    List.map_append, hnotes]
  split <;> rfl

end Compilation

/-! ## Layouts -/

/-- The line of the other list that stands where a line stands in the one. A line that does not
    occur there goes to a bound or beyond it. -/
def lineMap (lines others : List ℕ) (bound line : ℕ) : ℕ :=
  if line ∈ lines then others.getD (lines.idxOf line) 0 else line + bound

section

variable {lines others : List ℕ} {bound line : ℕ} (hlength : lines.length = others.length)

include hlength

theorem getElem?_lineMap (hmem : line ∈ lines) :
    others[lines.idxOf line]? = some (lineMap lines others bound line) := by
  have hlt : lines.idxOf line < others.length := hlength ▸ List.idxOf_lt_length_of_mem hmem
  simp [lineMap, hmem, List.getElem?_eq_getElem hlt]

theorem lineMap_mem (hmem : line ∈ lines) : lineMap lines others bound line ∈ others :=
  List.mem_of_getElem? (getElem?_lineMap hlength hmem)

omit hlength in
theorem lineMap_of_notMem (hmem : line ∉ lines) : lineMap lines others bound line = line + bound :=
  if_neg hmem

variable (hsame : ∀ i < lines.length, ∀ j < lines.length,
  (lines[i]? = lines[j]? ↔ others[i]? = others[j]?))

include hsame

theorem lineMap_injective (hbound : ∀ line ∈ others, line < bound) :
    (lineMap lines others bound).Injective := by
  intro line line' heq
  by_cases hmem : line ∈ lines <;> by_cases hmem' : line' ∈ lines
  · have hothers : others[lines.idxOf line]? = others[lines.idxOf line']? := by
      rw [getElem?_lineMap hlength hmem, getElem?_lineMap hlength hmem', heq]
    have hlines := (hsame _ (List.idxOf_lt_length_of_mem hmem) _
      (List.idxOf_lt_length_of_mem hmem')).mpr hothers
    rw [List.getElem?_idxOf hmem, List.getElem?_idxOf hmem'] at hlines
    exact Option.some.inj hlines
  · have hinside : lineMap lines others bound line < bound := hbound _ (lineMap_mem hlength hmem)
    rw [heq, lineMap_of_notMem hmem'] at hinside
    omega
  · have hinside : lineMap lines others bound line' < bound := hbound _ (lineMap_mem hlength hmem')
    rw [← heq, lineMap_of_notMem hmem] at hinside
    omega
  · rw [lineMap_of_notMem hmem, lineMap_of_notMem hmem'] at heq
    omega

theorem map_lineMap : lines.map (lineMap lines others bound) = others := by
  refine List.ext_getElem? fun i => ?_
  rw [List.getElem?_map]
  by_cases hi : i < lines.length
  · have hmem : lines[i] ∈ lines := List.getElem_mem hi
    have hline : lines[i]? = some lines[i] := List.getElem?_eq_getElem hi
    rw [hline, Option.map_some, ← getElem?_lineMap hlength hmem]
    have hfirst : lines[lines.idxOf lines[i]]? = lines[i]? :=
      (List.getElem?_idxOf hmem).trans hline.symm
    exact (hsame _ (List.idxOf_lt_length_of_mem hmem) i hi).mp hfirst
  · rw [List.getElem?_eq_none (by omega), List.getElem?_eq_none (by omega), Option.map_none]

end

namespace Token

/-- Two lists of tokens of the same classes and texts, where two tokens of the one are on one line
    exactly if those in the same places of the other are. -/
structure SameLayout (tokens others : List Token) : Prop where
  lexemes : List.Forall₂ (fun token other => token.sameLexeme other = true) tokens others
  lines : ∀ i < tokens.length, ∀ j < tokens.length,
    (tokens[i]?.map Token.line = tokens[j]?.map Token.line ↔
      others[i]?.map Token.line = others[j]?.map Token.line)

variable {tokens others : List Token}

theorem eq_map_onLines
    (h : List.Forall₂ (fun token other => token.sameLexeme other = true) tokens others)
    (hlines : others.map Token.line = (tokens.map Token.line).map ρ) :
    others = tokens.map (Token.onLines ρ) := by
  induction h with
  | nil => rfl
  | @cons token other tokens others hsame _ ih =>
    simp only [List.map_cons, List.cons.injEq] at hlines ⊢
    refine ⟨?_, ih hlines.2⟩
    obtain ⟨kind, text, line⟩ := token
    obtain ⟨kind', text', line'⟩ := other
    simp only [sameLexeme, hasForm, Bool.and_eq_true, beq_iff_eq] at hsame
    simp only [onLines, mk.injEq]
    exact ⟨hsame.1.symm, hsame.2.symm, hlines.1⟩

/-- Where there is no token, the end of input is on the first line, which stays as it is. -/
theorem SameLayout.exists_onLines (h : SameLayout tokens others) :
    ∃ ρ : ℕ → ℕ, ρ.Injective ∧ others = tokens.map (Token.onLines ρ) ∧
      Session.ofTokens others = (Session.ofTokens tokens).onLines ρ := by
  by_cases hempty : tokens = []
  · subst hempty
    obtain rfl := List.forall₂_nil_left_iff.mp h.lexemes
    exact ⟨id, Function.injective_id, rfl, rfl⟩
  · have hlength : (tokens.map Token.line).length = (others.map Token.line).length := by
      simpa using h.lexemes.length_eq
    have hsame : ∀ i < (tokens.map Token.line).length, ∀ j < (tokens.map Token.line).length,
        ((tokens.map Token.line)[i]? = (tokens.map Token.line)[j]? ↔
          (others.map Token.line)[i]? = (others.map Token.line)[j]?) := by
      simpa using h.lines
    obtain ⟨bound, hbound⟩ : ∃ bound, ∀ line ∈ others.map Token.line, line < bound :=
      ⟨_, fun _ hmem => Nat.lt_succ_of_le (List.le_sum_of_mem hmem)⟩
    have hmap : others = tokens.map
        (Token.onLines (lineMap (tokens.map Token.line) (others.map Token.line) bound)) :=
      eq_map_onLines h.lexemes (map_lineMap hlength hsame).symm
    refine ⟨_, lineMap_injective hlength hsame hbound, hmap, ?_⟩
    conv_lhs => rw [hmap]
    exact Session.ofTokens_onLines _ (.inl hempty)

end Token

/-! ## Outcomes -/

/-- Two lists of the same layout lead to the same outcome on other lines: of a program, that it is
    read or rejected, its tree, the error and the diagnostics; and of the statements that are read
    one by one, the statements, the errors that were passed over, the one that was not, and the
    diagnostics. -/
theorem outcome_of_sameLayout {tokens others : List Token} (h : Token.SameLayout tokens others) :
    ∃ ρ : ℕ → ℕ, ρ.Injective ∧ others = tokens.map (Token.onLines ρ) ∧
      Parser.program (.ofTokens others) =
        Parser.renamed ρ (Block.onLines ρ) (Parser.program (.ofTokens tokens)) ∧
      (∀ budget rounds : ℕ,
        Compilation.readStatements budget rounds {} (.ofTokens others) =
          Compilation.renamed ρ (Compilation.readStatements budget rounds {} (.ofTokens tokens))) ∧
      ∀ (progress : Compilation.Progress) (session : Session),
        Compilation.diagnosticsOf (progress.onLines ρ) (session.onLines ρ) =
          (Compilation.diagnosticsOf progress session).map (Diagnostic.onLines ρ) := by
  obtain ⟨ρ, hρ, hmap, hsession⟩ := h.exists_onLines
  rw [hsession]
  exact ⟨ρ, hρ, hmap, Parser.program_renames hρ _,
    fun budget rounds => Compilation.readStatements_onLines {} _ hρ budget rounds,
    fun progress session => Compilation.diagnosticsOf_onLines progress session⟩

/-- A `let` over two lines, and the same with its lines far apart and the other way round. -/
theorem outcome_of_sameLayout_let :
    ∃ tokens others : List Token,
      tokens.map Token.text = ["let", "x", "=", "1", ";"] ∧
      tokens.map Token.line = [1, 1, 1, 2, 2] ∧ others.map Token.line = [7, 7, 7, 3, 3] ∧
      Token.SameLayout tokens others ∧
      ∃ ρ : ℕ → ℕ, ρ.Injective ∧ others = tokens.map (Token.onLines ρ) ∧
        Parser.program (.ofTokens others) =
          Parser.renamed ρ (Block.onLines ρ) (Parser.program (.ofTokens tokens)) ∧
        (∀ budget rounds : ℕ,
          Compilation.readStatements budget rounds {} (.ofTokens others) =
            Compilation.renamed ρ
              (Compilation.readStatements budget rounds {} (.ofTokens tokens))) ∧
        ∀ (progress : Compilation.Progress) (session : Session),
          Compilation.diagnosticsOf (progress.onLines ρ) (session.onLines ρ) =
            (Compilation.diagnosticsOf progress session).map (Diagnostic.onLines ρ) := by
  have hlayout : Token.SameLayout
      [⟨.keyword, "let", 1⟩, ⟨.identifier, "x", 1⟩, ⟨.operator, "=", 1⟩, ⟨.int, "1", 2⟩,
        ⟨.punctuation, ";", 2⟩]
      [⟨.keyword, "let", 7⟩, ⟨.identifier, "x", 7⟩, ⟨.operator, "=", 7⟩, ⟨.int, "1", 3⟩,
        ⟨.punctuation, ";", 3⟩] :=
    ⟨by simp [Token.sameLexeme, Token.hasForm], by decide⟩
  exact ⟨_, _, rfl, rfl, rfl, hlayout, outcome_of_sameLayout hlayout⟩

end SinFrontend
