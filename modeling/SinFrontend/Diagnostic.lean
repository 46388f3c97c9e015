/-!
# Diagnostics

Warnings and notes. They are recorded while a text is parsed and never stop it.
-/

namespace SinFrontend

/-- How much a diagnostic asks for attention. -/
inductive Severity where
  | warning | note
  deriving DecidableEq

/-- A remark on a line of the source. -/
structure Diagnostic where
  severity : Severity
  message : String
  line : Nat
  code : Option Nat := none
  deriving DecidableEq

namespace Diagnostic

/-- A warning, which always has a code. -/
def warning (message : String) (line code : Nat) : Diagnostic :=
  { severity := .warning, message, line, code := some code }

/-- A note, which has none. -/
def note (message : String) (line : Nat) : Diagnostic :=
  { severity := .note, message, line }

/-- The diagnostic as users read it. A note never shows a code. -/
def text (diagnostic : Diagnostic) : String :=
  let place := s!"{diagnostic.message} (line {diagnostic.line})"
  match diagnostic.severity, diagnostic.code with
  | .warning, some code => s!"Compiler warning W{code}: {place}"
  | .warning, none => s!"Compiler warning: {place}"
  | .note, _ => s!"Note: {place}"

end Diagnostic

end SinFrontend
