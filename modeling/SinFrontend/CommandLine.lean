import SinFrontend.Compilation
import SinFrontend.FileTree

/-!
# The command line

What the program answers to its arguments. It compiles one file and writes all its messages to the
error stream. The file system appears here only as a function from paths to what is found there;
`Lookup.ofTree` makes one of a tree of files.
-/

namespace SinFrontend.CommandLine

/-- What is found under a path. -/
inductive Lookup where
  | missing
  | directory
  /-- Something else that cannot be read as text, and the reason. -/
  | unreadable (reason : String)
  | text (content : String)

/-- What is found under a path that leads to a place in a tree of files, or nowhere. -/
def Lookup.ofTree : Option FileTree → Lookup
  | none => .missing
  | some (.directory _) => .directory
  | some (.file content) => .text content

/-- What a run of the program leaves behind: the lines on its error stream, and its exit code. -/
structure Answer where
  errorLines : List String
  exitCode : Nat

/-- How the program is called. -/
def usage (program : String) : String :=
  "Usage: " ++ program ++ " <file.sin> [--no-symbols]"

/-- The report of a run over a text. -/
def report (path : String) (result : Except Failure Compilation.Output) : Answer :=
  let opening := "Compiling " ++ path ++ "..."
  match result with
  | .error (.rejected error) => { errorLines := [opening, error.message], exitCode := 1 }
  | .error .unfinished => { errorLines := [opening, "Error: out of steps"], exitCode := 1 }
  | .ok output =>
    let summary :=
      s!"Parsed {output.program.size} top-level statements; {output.symbols.size} symbols registered."
    let failure :=
      if output.isSuccess then []
      else [s!"Compilation failed with {output.errors.length} error(s)."]
    { errorLines :=
        opening :: output.diagnostics.map Diagnostic.text
          ++ output.errors.map CompileError.message ++ summary :: failure,
      exitCode := if output.isSuccess then 0 else 1 }

/-- The answer to the arguments behind the program's own name. The first names the file; of the
others only `--no-symbols` has a meaning. -/
def run (program : String) (args : List String) (lookup : String → Lookup) : Answer :=
  match args with
  | [] =>
    { errorLines :=
        ["Error: No input file provided", "", usage program, "",
          "Set RUST_LOG=debug to trace each parsed statement."],
      exitCode := 1 }
  | path :: flags =>
    match lookup path with
    | .missing =>
      { errorLines := ["Error: File '" ++ path ++ "' not found", usage program], exitCode := 1 }
    | .directory =>
      { errorLines :=
          ["Error: Os \x7b code: 21, kind: IsADirectory, message: \"Is a directory\" \x7d"],
        exitCode := 1 }
    | .unreadable reason => { errorLines := ["Error: " ++ reason], exitCode := 1 }
    | .text content =>
      let options : Compilation.Options := { registersSymbols := !flags.contains "--no-symbols" }
      report path (Compilation.ofText options content)

end SinFrontend.CommandLine
