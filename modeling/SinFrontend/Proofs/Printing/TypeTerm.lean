import SinFrontend.Proofs.Printing.Term

/-!
# Printing types

`TypeTerm` is the syntax of types: qualities, a word, and contained types in angle brackets, each
of which may have more qualities behind it.

* `TypeTerm.tree`: the type that a syntax stands for.
* `TypeTerm.print`: its text.
* `TypeTerm.WellFormed`: no quality contradicts another one, a struct has a name of its own, and the
  elements of an array without a length have a type that begins with a reserved word. Anything else
  would be taken for the length.
-/

namespace SinFrontend

/-! ## Qualities -/

/-- Words of qualities that do not contradict each other, and their set. -/
structure QualityWords where
  words : List Quality
  set : QualitySet
  adds : QualitySet.empty.addEach words = (set, none)

namespace QualityWords

/-- No words. -/
def none : QualityWords :=
  ⟨[], .empty, rfl⟩

/-- The text of the words. -/
def print (qualities : QualityWords) : List Pattern :=
  qualities.words.map fun quality => .word quality.word

/-- The text of the words behind what they qualify: an `&` before them, if there are any. -/
def printBehind (qualities : QualityWords) : List Pattern :=
  if qualities.words.isEmpty then [] else .operator .bitAnd :: qualities.print

end QualityWords

/-! ## Types -/

/-- The kinds that a reserved word names by itself. -/
abbrev BuiltinKind :=
  {kind : PrimaryKind // kind ∈ [.char, .int, .float, .string, .bool, .void, .raw]}

mutual

/-- The syntax of types. -/
inductive TypeTerm where
  | builtin (qualities : QualityWords) (kind : BuiltinKind)
  | struct (qualities : QualityWords) (name : String)
  | pointer (qualities : QualityWords) (target : ContainedTerm)
  | reference (qualities : QualityWords) (target : ContainedTerm)
  | array (qualities : QualityWords) (length : Option Term) (element : ContainedTerm)
  | tuple (qualities : QualityWords) (first : ContainedTerm) (more : List ContainedTerm)

/-- The syntax of a type in angle brackets, with the qualities behind it. -/
inductive ContainedTerm where
  | mk (type : TypeTerm) (qualities : QualityWords)

end

/-- The length that is printed in an array type. -/
def arrayLength (length : Option Term) : ArrayLength :=
  match length with
  | some length => .ofExpression length.tree
  | none => .unspecified

/-- The text of the length of an array, with the comma behind it. A length that begins with a
    reserved word is put in parentheses. -/
def printLength (length : Option Term) : List Pattern :=
  match length with
  | some length =>
    Style.parenthesized (startsWithWord (length.body {})) (length.body {}) ++ [.mark ","]
  | none => []

mutual

/-- The type that a syntax stands for. -/
def TypeTerm.tree : TypeTerm → DataType
  | .builtin qualities kind => .ofKind kind.val qualities.set
  | .struct qualities name => .structNamed name qualities.set
  | .pointer qualities target => .pointerTo target.tree qualities.set
  | .reference qualities target => .referenceTo target.tree qualities.set
  | .array qualities length element => .arrayOf element.tree (arrayLength length) qualities.set
  | .tuple qualities first more => .tupleOf (first.tree :: ContainedTerm.trees more) qualities.set
termination_by structural type => type

/-- The contained type that a syntax stands for. -/
def ContainedTerm.tree : ContainedTerm → DataType
  | .mk type qualities => (type.tree.addQualities qualities.set).1
termination_by structural contained => contained

/-- The contained types that a syntax stands for. -/
def ContainedTerm.trees : List ContainedTerm → List DataType
  | [] => []
  | contained :: more => contained.tree :: ContainedTerm.trees more
termination_by structural members => members

end

mutual

/-- The text of a type. -/
def TypeTerm.print : TypeTerm → List Pattern
  | .builtin qualities kind => qualities.print ++ [.word kind.val.word]
  | .struct qualities name => qualities.print ++ [.identifier name]
  | .pointer qualities target =>
    qualities.print ++
      .word "ptr" :: .operator .less :: (target.print ++ [.operator .greater])
  | .reference qualities target =>
    qualities.print ++
      .identifier "ref" :: .operator .less :: (target.print ++ [.operator .greater])
  | .array qualities length element =>
    qualities.print ++
      .word "array" :: .operator .less ::
        (printLength length ++ (element.print ++ [.operator .greater]))
  | .tuple qualities first more =>
    qualities.print ++
      .word "tuple" :: .operator .less ::
        (first.print ++ (ContainedTerm.printMore more ++ [.operator .greater]))
termination_by structural type => type

/-- The text of a contained type. -/
def ContainedTerm.print : ContainedTerm → List Pattern
  | .mk type qualities => type.print ++ qualities.printBehind
termination_by structural contained => contained

/-- The texts of contained types with a comma before each of them. -/
def ContainedTerm.printMore : List ContainedTerm → List Pattern
  | [] => []
  | contained :: more => .mark "," :: (contained.print ++ ContainedTerm.printMore more)
termination_by structural members => members

end

mutual

/-- Whether a syntax of types can be read. -/
def TypeTerm.WellFormed : TypeTerm → Prop
  | .builtin _ _ => True
  | .struct _ name => PrimaryKind.ofName name = .struct
  | .pointer _ target | .reference _ target => target.WellFormed
  | .array _ length element =>
    (length = none → startsWithWord element.print = true) ∧ element.WellFormed
  | .tuple _ first more => first.WellFormed ∧ ContainedTerm.AllWellFormed more
termination_by structural type => type

/-- Whether a contained type can be read: what is behind it contradicts nothing before it. -/
def ContainedTerm.WellFormed : ContainedTerm → Prop
  | .mk type qualities =>
    (type.tree.addQualities qualities.set).2 = none ∧ type.WellFormed
termination_by structural contained => contained

/-- Whether contained types can be read. -/
def ContainedTerm.AllWellFormed : List ContainedTerm → Prop
  | [] => True
  | contained :: more => contained.WellFormed ∧ ContainedTerm.AllWellFormed more
termination_by structural members => members

end

mutual

/-- The lengths of the arrays in a syntax of types. -/
def TypeTerm.lengths : TypeTerm → List Term
  | .builtin _ _ | .struct _ _ => []
  | .pointer _ target | .reference _ target => target.lengths
  | .array _ length element => length.toList ++ element.lengths
  | .tuple _ first more => first.lengths ++ ContainedTerm.allLengths more
termination_by structural type => type

/-- The lengths of the arrays in a contained type. -/
def ContainedTerm.lengths : ContainedTerm → List Term
  | .mk type _ => type.lengths
termination_by structural contained => contained

/-- The lengths of the arrays in contained types. -/
def ContainedTerm.allLengths : List ContainedTerm → List Term
  | [] => []
  | contained :: more => contained.lengths ++ ContainedTerm.allLengths more
termination_by structural members => members

end

/-! ## Types with names -/

/-- The syntax of the type and the name of a variable or function, with the qualities behind the
    name. -/
structure TypedName where
  type : TypeTerm
  name : String
  qualities : QualityWords

namespace TypedName

/-- The type that is given to the name. -/
def tree (typed : TypedName) : DataType :=
  (typed.type.tree.addQualities typed.qualities.set).1

/-- The text of the type, the name and the qualities behind it. -/
def print (typed : TypedName) : List Pattern :=
  typed.type.print ++ .identifier typed.name :: typed.qualities.printBehind

/-- Whether a type and a name can be read. -/
def WellFormed (typed : TypedName) : Prop :=
  (typed.type.tree.addQualities typed.qualities.set).2 = none ∧ typed.type.WellFormed

end TypedName

end SinFrontend
