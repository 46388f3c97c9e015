import SinFrontend.Compilation
import SinFrontend.Proofs.Session

/-!
# Renaming lines

A function on line numbers carries over to whatever has lines: to tokens, cursors and sessions, to
errors and remarks, and to statements and what they contain. Types and expressions have no lines.

* `Session.onLines`: a session whose tokens and remarks stand on other lines.
* `Cursor.onLines_advance` and the like: the moves of a cursor do not depend on lines.
* `Session.ofTokens_onLines`: a session is started on the same lines as its tokens.
* `Statement.onLines`, `Block.onLines`: trees on other lines.
* `Block.bodyReturns_onLines`: the check of returns depends on lines only in what it reports.
-/

namespace SinFrontend

variable (ρ : ℕ → ℕ)

/-! ## Tokens -/

/-- The token on the line that its own becomes. -/
def Token.onLines (token : Token) : Token :=
  { token with line := ρ token.line }

namespace Token

variable (token : Token)

@[simp] theorem onLines_kind : (token.onLines ρ).kind = token.kind := rfl

@[simp] theorem onLines_text : (token.onLines ρ).text = token.text := rfl

@[simp] theorem onLines_line : (token.onLines ρ).line = ρ token.line := rfl

@[simp] theorem hasForm_onLines (kind : Kind) (text : String) :
    (token.onLines ρ).hasForm kind text = token.hasForm kind text := rfl

@[simp] theorem isPunctuation_onLines (mark : String) :
    (token.onLines ρ).isPunctuation mark = token.isPunctuation mark := rfl

@[simp] theorem isKeyword_onLines (word : String) :
    (token.onLines ρ).isKeyword word = token.isKeyword word := rfl

@[simp] theorem isOperator_onLines (symbol : String) :
    (token.onLines ρ).isOperator symbol = token.isOperator symbol := rfl

@[simp] theorem operator?_onLines : (token.onLines ρ).operator? = token.operator? := rfl

@[simp] theorem eof_onLines (line : ℕ) : (Token.eof line).onLines ρ = Token.eof (ρ line) := rfl

end Token

/-! ## Cursors -/

/-- The same place over the tokens on other lines. -/
def Cursor.onLines (cursor : Cursor) : Cursor where
  passed := cursor.passed.map (Token.onLines ρ)
  current := cursor.current.onLines ρ
  rest := cursor.rest.map (Token.onLines ρ)

namespace Cursor

variable (cursor : Cursor)

@[simp] theorem onLines_current : (cursor.onLines ρ).current = cursor.current.onLines ρ := rfl

@[simp] theorem onLines_passed :
    (cursor.onLines ρ).passed = cursor.passed.map (Token.onLines ρ) := rfl

@[simp] theorem onLines_rest : (cursor.onLines ρ).rest = cursor.rest.map (Token.onLines ρ) := rfl

@[simp] theorem onLines_ahead : (cursor.onLines ρ).ahead = cursor.ahead.map (Token.onLines ρ) := rfl

@[simp] theorem onLines_atEnd : (cursor.onLines ρ).atEnd = cursor.atEnd := rfl

@[simp] theorem onLines_size : (cursor.onLines ρ).size = cursor.size := by
  simp [size]

@[simp] theorem onLines_previous : (cursor.onLines ρ).previous = cursor.previous.onLines ρ := by
  unfold previous
  cases hpassed : cursor.passed <;> simp [hpassed]

/-! ### Moving -/

theorem onLines_advance : (cursor.onLines ρ).advance = cursor.advance.onLines ρ := by
  unfold advance
  rw [onLines_atEnd]
  split
  · rfl
  · cases hrest : cursor.rest <;> simp [hrest, onLines]

theorem onLines_retreat : (cursor.onLines ρ).retreat = cursor.retreat.onLines ρ := by
  unfold retreat
  cases hpassed : cursor.passed <;> simp [hpassed, onLines]

theorem onLines_replaceText (text : String) :
    (cursor.onLines ρ).replaceText text = (cursor.replaceText text).onLines ρ := rfl

theorem onLines_advanceBy (count : ℕ) :
    (cursor.onLines ρ).advanceBy count = (cursor.advanceBy count).onLines ρ := by
  induction count generalizing cursor with
  | zero => rfl
  | succ count ih => rw [advanceBy, onLines_advance, ih, advanceBy]

theorem onLines_retreatTo (count : ℕ) :
    (cursor.onLines ρ).retreatTo count = (cursor.retreatTo count).onLines ρ := by
  have hgo (steps : ℕ) (cursor : Cursor) :
      retreatTo.go steps (cursor.onLines ρ) = (retreatTo.go steps cursor).onLines ρ := by
    induction steps generalizing cursor with
    | zero => rfl
    | succ steps ih => rw [retreatTo.go, onLines_retreat, ih, retreatTo.go]
  rw [retreatTo, onLines_passed, List.length_map]
  exact hgo _ cursor

theorem length_takeWhile_onLines {test : Token → Bool}
    (htest : ∀ token : Token, test (token.onLines ρ) = test token) (tokens : List Token) :
    ((tokens.map (Token.onLines ρ)).takeWhile test).length = (tokens.takeWhile test).length := by
  rw [List.takeWhile_map, List.length_map]
  congr 2
  exact funext htest

theorem onLines_skipWhile {test : Token → Bool}
    (htest : ∀ token : Token, test (token.onLines ρ) = test token) :
    (cursor.onLines ρ).skipWhile test = (cursor.skipWhile test).onLines ρ := by
  rw [skipWhile, onLines_ahead, length_takeWhile_onLines ρ htest, onLines_advanceBy]
  rfl

theorem statementLength_onLines (depth : ℕ) (tokens : List Token) :
    statementLength depth (tokens.map (Token.onLines ρ)) = statementLength depth tokens := by
  induction tokens generalizing depth with
  | nil => rfl
  | cons token rest ih => simp [statementLength, ih]

theorem onLines_skipStatement :
    (cursor.onLines ρ).skipStatement = cursor.skipStatement.onLines ρ := by
  rw [skipStatement, onLines_ahead, statementLength_onLines, onLines_advanceBy]
  rfl

/-- Only where there are no tokens, the end of input stands on a line of its own. -/
theorem ofTokens_onLines {tokens : List Token} (h : tokens ≠ [] ∨ ρ 1 = 1) :
    Cursor.ofTokens (tokens.map (Token.onLines ρ)) = (Cursor.ofTokens tokens).onLines ρ := by
  cases tokens with
  | nil =>
    have hone : ρ 1 = 1 := h.resolve_left (by simp)
    simp [ofTokens, onLines, Token.onLines, Token.eof, hone]
  | cons first rest =>
    have hlast : ((rest.map (Token.onLines ρ)).getLast?.getD (first.onLines ρ)) =
        (rest.getLast?.getD first).onLines ρ := by
      rw [List.getLast?_map]
      cases rest.getLast? <;> rfl
    simp only [List.map_cons, ofTokens, hlast, Token.onLines_kind, Token.onLines_line, onLines,
      List.map_nil]
    congr 1
    split <;> simp

end Cursor

/-! ## Errors and remarks -/

/-- The remark on the line that its own becomes. -/
def Diagnostic.onLines (diagnostic : Diagnostic) : Diagnostic :=
  { diagnostic with line := ρ diagnostic.line }

/-- The error on the line that its own becomes. -/
def CompileError.onLines (error : CompileError) : CompileError :=
  { error with line := ρ error.line }

/-- The failure with its error on another line. -/
def Failure.onLines : Failure → Failure
  | rejected error => rejected (error.onLines ρ)
  | unfinished => unfinished

/-! ## Sessions -/

/-- The session over the tokens and with the remarks on other lines. -/
def Session.onLines (session : Session) : Session :=
  { session with
    cursor := session.cursor.onLines ρ
    diagnostics := session.diagnostics.map (Diagnostic.onLines ρ) }

namespace Session

variable (session : Session)

@[simp] theorem onLines_cursor : (session.onLines ρ).cursor = session.cursor.onLines ρ := rfl

@[simp] theorem onLines_diagnostics :
    (session.onLines ρ).diagnostics = session.diagnostics.map (Diagnostic.onLines ρ) := rfl

@[simp] theorem onLines_statementStart :
    (session.onLines ρ).statementStart = session.statementStart := rfl

@[simp] theorem onLines_atEnd : (session.onLines ρ).atEnd = session.atEnd := rfl

theorem onLines_on {step : Cursor → Cursor}
    (h : ∀ cursor : Cursor, step (cursor.onLines ρ) = (step cursor).onLines ρ) :
    (session.onLines ρ).on step = (session.on step).onLines ρ := by
  simp [on, onLines, h]

theorem onLines_synchronize : (session.onLines ρ).synchronize = session.synchronize.onLines ρ := by
  simp [synchronize, onLines, Cursor.onLines_retreatTo, Cursor.onLines_skipStatement]

theorem ofTokens_onLines {tokens : List Token} (h : tokens ≠ [] ∨ ρ 1 = 1) :
    Session.ofTokens (tokens.map (Token.onLines ρ)) = (Session.ofTokens tokens).onLines ρ := by
  simp [ofTokens, onLines, Cursor.ofTokens_onLines ρ h]

end Session

/-! ## Trees -/

mutual

/-- The statement with it and all that it contains on other lines. -/
def Statement.onLines : Statement → Statement
  | ⟨form, line⟩ => ⟨form.onLines, ρ line⟩
termination_by structural statement => statement

/-- The form with all statements that it contains on other lines. -/
def Form.onLines : Form → Form
  | .declaration type name value isFunction isStruct params =>
    .declaration type name value isFunction isStruct (Statement.allOnLines params)
  | .ifThen condition branch => .ifThen condition branch.onLines
  | .ifElse condition branch otherwise => .ifElse condition branch.onLines otherwise.onLines
  | .whileLoop condition branch => .whileLoop condition branch.onLines
  | .functionDefinition name returnType params body =>
    .functionDefinition name returnType (Statement.allOnLines params) body.onLines
  | .structDefinition name body => .structDefinition name body.onLines
  | .scopedBlock block => .scopedBlock block.onLines
  | form => form
termination_by structural form => form

/-- The block with its statements on other lines. -/
def Block.onLines : Block → Block
  | ⟨statements, hasReturn⟩ => ⟨Statement.allOnLines statements, hasReturn⟩
termination_by structural block => block

/-- The statements on other lines, one by one. -/
def Statement.allOnLines : List Statement → List Statement
  | [] => []
  | statement :: rest => statement.onLines :: Statement.allOnLines rest
termination_by structural statements => statements

end

@[simp] theorem Statement.allOnLines_eq_map (statements : List Statement) :
    Statement.allOnLines ρ statements = statements.map (Statement.onLines ρ) := by
  induction statements with
  | nil => rfl
  | cons statement rest ih => rw [Statement.allOnLines, ih, List.map_cons]

@[simp] theorem Block.onLines_statements (block : Block) :
    (block.onLines ρ).statements = block.statements.map (Statement.onLines ρ) := by
  cases block
  simp [Block.onLines]

/-! ### Returns -/

@[simp] theorem Statement.isReturn_onLines (statement : Statement) :
    (statement.onLines ρ).isReturn = statement.isReturn := by
  obtain ⟨form, line⟩ := statement
  cases form <;> rfl

@[simp] theorem Statement.isDeclaration_onLines (statement : Statement) :
    (statement.onLines ρ).isDeclaration = statement.isDeclaration := by
  obtain ⟨form, line⟩ := statement
  cases form <;> rfl

mutual

theorem Statement.returns_onLines (statement : Statement) :
    (statement.onLines ρ).returns = statement.returns := by
  obtain ⟨form, line⟩ := statement
  cases form with
  | scopedBlock block => exact block.returns_onLines
  | ifElse condition branch otherwise =>
    exact congrArg₂ and branch.returns_onLines otherwise.returns_onLines
  | _ => rfl

theorem Block.returns_onLines (block : Block) : (block.onLines ρ).returns = block.returns := by
  obtain ⟨statements, hasReturn⟩ := block
  exact congrArg (hasReturn || ·) (Statement.lastReturns_onLines statements)

theorem Statement.lastReturns_onLines (statements : List Statement) :
    Statement.lastReturns (Statement.allOnLines ρ statements) =
      Statement.lastReturns statements := by
  rcases statements with _ | ⟨⟨form, line⟩, _ | ⟨second, rest⟩⟩
  · rfl
  · cases form with
    | scopedBlock block => exact block.returns_onLines
    | ifElse condition branch otherwise =>
      exact congrArg₂ and branch.returns_onLines otherwise.returns_onLines
    | whileLoop condition branch => exact branch.returns_onLines
    | _ => rfl
  · cases form <;> exact Statement.lastReturns_onLines (second :: rest)

end

/-- The check of a body finds the same, and reports it on the line of the last statement. -/
theorem Block.bodyReturns_onLines (body : Block) :
    (body.onLines ρ).bodyReturns = body.bodyReturns.mapError (CompileError.onLines ρ) := by
  obtain ⟨statements, hasReturn⟩ := body
  simp only [bodyReturns, onLines, Statement.allOnLines_eq_map, List.getLast?_map]
  cases hasReturn with
  | true => rfl
  | false =>
    cases statements.getLast? with
    | none => rfl
    | some last =>
      obtain ⟨form, line⟩ := last
      cases form with
      | ifElse condition branch otherwise =>
        simp only [Option.map_some, Statement.onLines, Form.onLines, Statement.returns_onLines]
        cases branch.returns && otherwise.returns <;> rfl
      | whileLoop condition branch =>
        exact congrArg Except.ok (branch.returns_onLines ρ)
      | _ => rfl

/-! ### Blocks -/

namespace Block

@[simp] theorem onLines_empty : Block.empty.onLines ρ = Block.empty := rfl

@[simp] theorem onLines_isEmpty (block : Block) : (block.onLines ρ).isEmpty = block.isEmpty := by
  simp [isEmpty]

theorem onLines_push (block : Block) (statement : Statement) :
    (block.push statement).onLines ρ = (block.onLines ρ).push (statement.onLines ρ) := by
  obtain ⟨statements, hasReturn⟩ := block
  simp [push, onLines]

theorem onLines_ofList (statements : List Statement) :
    (Block.ofList statements).onLines ρ = .ofList (statements.map (Statement.onLines ρ)) := by
  suffices hfold : ∀ block : Block, (statements.foldl push block).onLines ρ =
      (statements.map (Statement.onLines ρ)).foldl push (block.onLines ρ) from hfold .empty
  induction statements with
  | nil => exact fun _ => rfl
  | cons statement rest ih =>
    intro block
    rw [List.foldl_cons, ih, onLines_push, List.map_cons, List.foldl_cons]

end Block

end SinFrontend
