import SinFrontend.CommandLine

/-!
# The program

Looks up the file that the first argument names, and writes the answer of the command line to the
error stream.
-/

namespace SinFrontend.CommandLine

/-- What an open file holds. A directory can be opened and not read. -/
def readOpened (handle : IO.FS.Handle) : IO Lookup := do
  try
    return .text (← handle.readToEnd)
  catch
    | .inappropriateType .. => return .directory
    | error => return .unreadable (toString error)

/-- What the file system holds under a path. A path that leads nowhere, or through a file, or that
is too long, cannot be opened and names nothing. -/
def lookupFile (path : String) : IO Lookup := do
  try
    readOpened (← IO.FS.Handle.mk path .read)
  catch
    | .noFileOrDirectory .. | .inappropriateType .. | .invalidArgument .. => return .missing
    | error => return .unreadable (toString error)

/-- Answers the arguments of the program. -/
def perform (args : List String) : IO Answer := do
  let found ← match args with
    | [] => pure .missing
    | path :: _ => lookupFile path
  return run "sinc" args fun _ => found

end SinFrontend.CommandLine

def main (args : List String) : IO UInt32 := do
  let answer ← SinFrontend.CommandLine.perform args
  for line in answer.errorLines do
    IO.eprintln line
  return UInt32.ofNat answer.exitCode
