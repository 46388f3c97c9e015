/-!
# Paths into a tree of files

What a path names in a file system, as far as a program that reads one file can tell.

A path is read name by name, from the root if it begins with a slash and from the working
directory otherwise. Every name is looked up in a directory: nothing lies behind a file, not even
an empty name, so a path to a file must not end in a slash. An empty name and `.` stay where they
are, and `..` goes up, except at the root.

* `Place.step` follows one name.
* `FileSystem.find?` follows a path.
-/

namespace SinFrontend

/-- A file with its content, or a directory with what its names stand for. -/
inductive FileTree where
  | file (content : String)
  | directory (entries : List (String × FileTree))

/-- A place in a tree of files. -/
structure Place where
  here : FileTree
  /-- The directories around the place, the nearest first. -/
  above : List FileTree := []

namespace Place

/-- The directory around a place. The root is around itself. -/
def parent (place : Place) : Place :=
  match place.above with
  | [] => place
  | up :: above => { here := up, above }

/-- The place that a name leads to, if it leads anywhere. -/
def step (place : Place) (name : String) : Option Place :=
  match place.here with
  | .file _ => none
  | .directory entries =>
    if name == "" || name == "." then some place
    else if name == ".." then some place.parent
    else (entries.lookup name).map fun here => { here, above := place.here :: place.above }

end Place

/-- All files, and the directory in which relative paths begin. -/
structure FileSystem where
  root : FileTree
  /-- The names that lead from the root to the working directory. -/
  workingDirectory : List String

namespace FileSystem

/-- The number of bytes from which on a path is too long to name anything. -/
def pathLimit : Nat := 4096

/-- What a path names. An empty path names nothing. -/
def find? (system : FileSystem) (path : String) : Option FileTree :=
  if path.isEmpty || pathLimit ≤ path.utf8ByteSize then none
  else
    let start := if path.startsWith "/" then [] else system.workingDirectory
    ((start ++ path.splitOn "/").foldlM Place.step { here := system.root }).map Place.here

end FileSystem

end SinFrontend
