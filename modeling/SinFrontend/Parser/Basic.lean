import SinFrontend.CompileError
import SinFrontend.Cursor
import SinFrontend.Diagnostic

/-!
# Parsers

A parser reads tokens from a session and yields a value, or stops with a failure. What it has read
and what it has noted stays read and noted when it fails, so that a caller can go on from there.

A failure is either an error in the text or `unfinished`: the parser was given a number of steps
and used them up. Only an error can be looked at and replaced by another one; running out of steps
is passed on by everything.
-/

namespace SinFrontend

/-- The state of parsing one list of tokens. -/
structure Session where
  cursor : Cursor
  /-- What was noted so far, in order. -/
  diagnostics : List Diagnostic := []
  /-- How many tokens lie before the last statement that was begun at the top level. -/
  statementStart : Nat := 0

/-- Why a parser stopped without a value. -/
inductive Failure where
  | rejected (error : CompileError)
  | unfinished
  deriving DecidableEq

/-- A computation that reads tokens. -/
abbrev Parser := EStateM Failure Session

namespace Session

/-- A session at the beginning of a list of tokens. -/
def ofTokens (tokens : List Token) : Session :=
  { cursor := .ofTokens tokens }

/-- Whether all tokens have been read. -/
def atEnd (session : Session) : Bool :=
  session.cursor.atEnd

/-- Goes back to the last statement that was begun at the top level, and over it. -/
def synchronize (session : Session) : Session :=
  { session with cursor := (session.cursor.retreatTo session.statementStart).skipStatement }

/-- Forgets what was noted so far. -/
def dropDiagnostics (session : Session) : Session :=
  { session with diagnostics := [] }

end Session

namespace Parser

/-! ## Failing -/

/-- Stops with an error. -/
def reject {α : Type} (cause : Cause) (line : Nat) : Parser α :=
  throw (.rejected ⟨cause, line⟩)

/-- Runs a parser and replaces an error of it by the one that `explain` makes of it. What the
parser read until its error stays read. -/
def explaining {α : Type} (parser : Parser α) (explain : CompileError → Parser CompileError) :
    Parser α :=
  tryCatch parser fun
    | .rejected error => do throw (.rejected (← explain error))
    | .unfinished => throw .unfinished

/-! ## Looking -/

/-- The next token. -/
def peek : Parser Token :=
  return (← get).cursor.current

/-- The line of the next token. -/
def currentLine : Parser Nat :=
  return (← peek).line

/-- The token that was read last. -/
def previous : Parser Token :=
  return (← get).cursor.previous

/-- The line of the token that was read last. -/
def previousLine : Parser Nat :=
  return (← previous).line

/-- Whether all tokens have been read. -/
def atEnd : Parser Bool :=
  return (← get).atEnd

/-- Whether the next token is a given punctuation mark. -/
def atPunctuation (mark : String) : Parser Bool :=
  return (← peek).isPunctuation mark

/-- Whether a reserved word follows the next token. -/
def keywordFollows : Parser Bool :=
  return (← get).cursor.rest.head?.any (·.kind == .keyword)

/-! ## Moving -/

/-- Moves the cursor. -/
def move (step : Cursor → Cursor) : Parser Unit :=
  modify fun session => { session with cursor := step session.cursor }

/-- Reads the next token. At the end of input nothing is read, and the token that was read last
is handed out once more. -/
def advance : Parser Token := do
  move Cursor.advance
  previous

/-- Unreads the token that was read last. -/
def retreat : Parser Unit :=
  move Cursor.retreat

/-- Reads the next token if it satisfies a test, and tells whether it did. -/
def take (test : Token → Bool) : Parser Bool := do
  if test (← peek) then
    move Cursor.advance
    return true
  else
    return false

/-- Reads a given punctuation mark if it is next. -/
def takePunctuation (mark : String) : Parser Bool :=
  take (·.isPunctuation mark)

/-- Reads a given reserved word if it is next. -/
def takeKeyword (word : String) : Parser Bool :=
  take (·.isKeyword word)

/-- Reads a given operator if it is next. -/
def takeOperator (symbol : String) : Parser Bool :=
  take (·.isOperator symbol)

/-- Reads all semicolons up to the next other token. -/
def skipSemicolons : Parser Unit :=
  move fun cursor => cursor.skipWhile (·.isPunctuation ";")

/-! ## Demanding -/

/-- Reads a grouping symbol that must be next. -/
def expectPunctuation (symbol context : String) : Parser Unit := do
  unless ← takePunctuation symbol do
    reject (.missingGroupingSymbol symbol context) (← currentLine)

/-- Reads an identifier that must be next. -/
def expectIdentifier (context : String) : Parser String := do
  if (← peek).kind == .identifier then
    return (← advance).text
  else
    reject (.missingIdentifier context) (← currentLine)

/-- Demands that a simple statement ends here: at a semicolon, or, in a list of parameters, at a
comma or a closing parenthesis. The mark itself is left. -/
def expectStatementEnd : Parser Unit := do
  let next ← peek
  unless next.isPunctuation ";" || next.isPunctuation "," || next.isPunctuation ")" do
    reject .missingSemicolon (← previousLine)

/-! ## Noting -/

/-- Records a diagnostic. -/
def record (diagnostic : Diagnostic) : Parser Unit :=
  modify fun session => { session with diagnostics := session.diagnostics ++ [diagnostic] }

/-- Records a note. -/
def note (message : String) (line : Nat) : Parser Unit :=
  record (.note message line)

/-- Records a warning. -/
def warn (message : String) (line code : Nat) : Parser Unit :=
  record (.warning message line code)

end Parser

end SinFrontend
