import SinFrontend.Parser.Descent
import SinFrontend.Symbol.Collector

/-!
# Compiling a text

A run over a whole text. Its tokens must all be readable; then statements are read one at a time.
A statement that fails is recorded, and reading goes on behind it, until more statements have
failed than the error budget allows. At the end the symbols of the statements are collected.
-/

namespace SinFrontend

namespace Compilation

/-- What a run may be told. -/
structure Options where
  /-- How many statements may fail before the run is given up. -/
  errorBudget : Nat := 5
  /-- Whether symbols are collected. -/
  registersSymbols : Bool := true

/-- What a completed run produces. -/
structure Output where
  program : Block
  symbols : SymbolTable
  diagnostics : List Diagnostic
  /-- The errors of statements and then those of symbols. -/
  errors : List CompileError

/-- Whether a run met no error. -/
def Output.isSuccess (output : Output) : Bool :=
  output.errors.isEmpty

/-- The statements that were read so far, the errors that were met, and the lines of the `pass`
statements that were left out. -/
structure Progress where
  program : Block := .empty
  errors : List CompileError := []
  passes : List Nat := []

/-- Reads one statement, or what is left of it after an error. -/
def round (budget : Nat) (progress : Progress) (session : Session) :
    Except Failure (Progress × Session) :=
  match Parser.topLevelStatement session with
  | .ok (some statement) session =>
    .ok ({ progress with program := progress.program.push statement }, session)
  | .ok none session =>
    let last := session.cursor.previous
    .ok (if last.isKeyword "pass" then { progress with passes := progress.passes ++ [last.line] }
      else progress, session)
  | .error (.rejected error) session =>
    let errors := progress.errors ++ [error]
    if budget < errors.length then
      .error (.rejected ⟨.errorBudgetExceeded errors.length, error.line⟩)
    else .ok ({ progress with errors }, session.synchronize)
  | .error .unfinished _ => .error .unfinished

/-- Reads all statements of a session in a number of rounds, one for each statement. -/
def readStatements (budget : Nat) : Nat → Progress → Session → Except Failure (Progress × Session)
  | 0, _, _ => .error .unfinished
  | rounds + 1, progress, session =>
    if session.atEnd then .ok (progress, session)
    else do
      let (progress, session) ← round budget progress session
      readStatements budget rounds progress session

/-- The diagnostics of a run: those of the parser, and then a note on every `pass` that stands
beside other statements. -/
def diagnosticsOf (progress : Progress) (session : Session) : List Diagnostic :=
  session.diagnostics ++
    if progress.program.isEmpty then []
    else progress.passes.map (Diagnostic.note Parser.passNote)

/-- What was collected from a program, if symbols are collected. -/
def symbolsOf (options : Options) (program : Block) : Collector :=
  let collector : Collector := {}
  if options.registersSymbols then collector.collect program else collector

/-- Runs over the tokens of a session. -/
def ofSession (options : Options) (session : Session) : Except Failure Output := do
  let (progress, session) ←
    readStatements options.errorBudget (session.cursor.size + 1) {} session
  let collector := symbolsOf options progress.program
  return {
    program := progress.program,
    symbols := collector.table,
    diagnostics := diagnosticsOf progress session,
    errors := progress.errors ++ collector.errors }

/-- Runs over a text. -/
def ofText (options : Options) (text : String) : Except Failure Output :=
  match Session.ofText text with
  | .ok session => ofSession options session
  | .error error => .error (.rejected error)

end Compilation

end SinFrontend
