import SinFrontend.Tree

/-!
# Data types

How types are made, and what can be read off them. Width and ownership are computed from the
parts of a type whenever they are asked for, so they cannot go stale when a quality is added.

* The makers (`ofKind`, `pointerTo`, `arrayOf`, …) supply what is implied: a number is signed
  unless it is said to be unsigned, and a string contains characters.
* `DataType.sameType` compares types; the length of an array does not take part.
* `DataType.isValid` is the policy for types of allocated variables.
-/

namespace SinFrontend

/-! ## Array lengths -/

namespace ArrayLength

/-- Reads the decimal text of a length: digits, after an optional plus sign, of a number that fits
in 64 bits. -/
def read? (text : String) : Option Nat :=
  let digits := match text.toList with
    | '+' :: digits => digits
    | digits => digits
  let length := Nat.ofDigitChars 10 digits 0
  if !digits.isEmpty && digits.all Char.isDigit && length < UInt64.size then some length else none

/-- The length that an expression gives: an integer literal is resolved at once if it can be read,
anything else is deferred. -/
def ofExpression (expression : Expression) : ArrayLength :=
  match expression with
  | .literal type value _ =>
    match (if type.kind == .int then read? value else none) with
    | some length => .resolved length
    | none => .deferred expression
  | _ => .deferred expression

/-- The length if it is known, and zero otherwise. -/
def known : ArrayLength → Nat
  | resolved length => length
  | unspecified | deferred _ => 0

end ArrayLength

namespace DataType

/-! ## Makers -/

/-- The qualities that a kind implies: an integer that is not unsigned is signed, and so is every
float. -/
def impliedQualities (kind : PrimaryKind) (qualities : QualitySet) : QualitySet :=
  match kind with
  | .int => { qualities with signed := qualities.signed || !qualities.unsigned }
  | .float => { qualities with signed := true }
  | _ => qualities

/-- A type of given parts, with the qualities that its kind implies. -/
def make (kind : PrimaryKind) (contained : List DataType) (qualities : QualitySet)
    (length : ArrayLength) (structName : Option String) : DataType :=
  { kind, contained, length, structName, qualities := impliedQualities kind qualities }

/-- The type that is not known yet. -/
def unknown : DataType :=
  { kind := .none, contained := [], qualities := .empty, length := .unspecified,
    structName := none }

/-- A type of a kind alone. A string contains a plain character; all others contain nothing. -/
def ofKind (kind : PrimaryKind) (qualities : QualitySet) : DataType :=
  let contained := if kind == .string then [make .char [] .empty .unspecified none] else []
  make kind contained qualities .unspecified none

/-- A pointer. -/
def pointerTo (target : DataType) (qualities : QualitySet) : DataType :=
  make .ptr [target] qualities .unspecified none

/-- A reference. -/
def referenceTo (target : DataType) (qualities : QualitySet) : DataType :=
  make .reference [target] qualities .unspecified none

/-- An array. -/
def arrayOf (element : DataType) (length : ArrayLength) (qualities : QualitySet) : DataType :=
  make .array [element] qualities length none

/-- A tuple. -/
def tupleOf (members : List DataType) (qualities : QualitySet) : DataType :=
  make .tuple members qualities .unspecified none

/-- A struct, known by its name. -/
def structNamed (name : String) (qualities : QualitySet) : DataType :=
  make .struct [] qualities .unspecified (some name)

/-- The type of a literal, which is constant. -/
def ofLiteral (kind : PrimaryKind) : DataType :=
  ofKind kind { const := true }

/-! ## Changing a type -/

/-- The type with another array length. -/
def withLength (type : DataType) (length : Expression) : DataType :=
  { type with length := .ofExpression length }

/-- Adds one quality to a type. -/
def addQuality (type : DataType) (quality : Quality) : Except QualityConflict DataType :=
  (type.qualities.add quality).map fun qualities => { type with qualities }

/-- Layers a set of qualities on those of a type, up to the first conflict. -/
def addQualities (type : DataType) (qualities : QualitySet) :
    DataType × Option QualityConflict :=
  let (merged, conflict) := type.qualities.addAll qualities
  ({ type with qualities := merged }, conflict)

/-! ## Equality -/

mutual

/-- Whether two types are the same, whatever the lengths of their arrays. -/
def sameType : DataType → DataType → Bool
  | ⟨kind, contained, qualities, _, structName⟩, other =>
    kind == other.kind && qualities == other.qualities && sameTypes contained other.contained
      && structName == other.structName
termination_by structural type => type

/-- Whether two lists of types are the same, one by one. -/
def sameTypes : List DataType → List DataType → Bool
  | [], [] => true
  | type :: types, other :: others => type.sameType other && sameTypes types others
  | _, _ => false
termination_by structural types => types

end

/-! ## Reading a type -/

/-- The first contained type. -/
def subtype? (type : DataType) : Option DataType :=
  type.contained.head?

/-- Whether a type is not known yet. -/
def isUnknown (type : DataType) : Bool :=
  type.kind == .none

/-- Whether a quality says nothing about a type of this kind. -/
def ignoresQuality (type : DataType) (quality : Quality) : Bool :=
  quality.isNumeric && type.kind.ignoresWidthAndSign

/-- Whether half precision is asked for, which is not supported. -/
def isHalfPrecision (type : DataType) : Bool :=
  type.kind == .float && type.qualities.short

mutual

/-- The width of a value in bytes, and zero where it depends on more than the type says. A short
float is as wide as a plain one. A tuple of known widths is as wide as its members together. -/
def width : DataType → Nat
  | ⟨kind, contained, qualities, _, _⟩ =>
    match kind with
    | .int => if qualities.long then 8 else if qualities.short then 2 else 4
    | .float => if qualities.long then 8 else 4
    | .bool | .char => 1
    | .ptr | .reference | .string => 8
    | .tuple =>
      let members := widths contained
      if members.contains 0 then 0 else members.sum
    | .none | .raw | .array | .struct | .void => 0
termination_by structural type => type

/-- The widths of types, one by one. -/
def widths : List DataType → List Nat
  | [] => []
  | type :: types => type.width :: widths types
termination_by structural types => types

end

/-- Whether a value refers to managed memory in any case: dynamic values, strings and references
do. -/
def isReferenceType (type : DataType) : Bool :=
  type.qualities.dynamic || type.kind == .string || type.kind == .reference

/-- Whether a value owns the memory that it refers to. -/
def ownsMemory (type : DataType) : Bool :=
  type.kind == .ptr && type.qualities.managed || type.isReferenceType

/-- Whether memory must be released when a value goes out of scope: its own, that of the elements
of an array, or that of a member of a tuple. -/
def mustFree (type : DataType) : Bool :=
  type.ownsMemory ||
    match type.kind with
    | .array => type.subtype?.any ownsMemory
    | .tuple => type.contained.any ownsMemory
    | _ => false

/-- Whether a value must be given where the variable is allocated. -/
def mustInitialize (type : DataType) : Bool :=
  type.qualities.const || type.kind == .reference

/-- The policy for allocated variables: no short float, no string with a sign, no string that is
static but may change, no struct with a sign or width, and no unmanaged reference. -/
def isValid (type : DataType) : Bool :=
  let qualities := type.qualities
  match type.kind with
  | .float => !qualities.short
  | .string => !qualities.hasSign && !(qualities.static && !qualities.const)
  | .struct => !(qualities.long || qualities.short || qualities.hasSign)
  | .reference => qualities.managed
  | _ => true

/-! ## Text -/

/-- The qualities as a type's text shows them: `signed` is left out. -/
def qualityText (qualities : QualitySet) : String :=
  let shown := qualities.listed.filter (· != .signed)
  String.join (shown.map fun quality => quality.word ++ " ")

mutual

/-- The type as messages show it. -/
def text : DataType → String
  | ⟨kind, contained, qualities, length, structName⟩ =>
    let parts := texts contained
    let shape := match kind with
      | .struct => structName.getD kind.word
      | .ptr | .reference =>
        match parts with
        | target :: _ => kind.word ++ "<" ++ target ++ ">"
        | [] => kind.word
      | .array =>
        match parts, length with
        | element :: _, .resolved length => s!"array<{length}, {element}>"
        | element :: _, _ => "array<" ++ element ++ ">"
        | [], _ => "array"
      | .tuple => "tuple<" ++ ", ".intercalate parts ++ ">"
      | _ => kind.word
    qualityText qualities ++ shape
termination_by structural type => type

/-- The texts of types, one by one. -/
def texts : List DataType → List String
  | [] => []
  | type :: types => type.text :: texts types
termination_by structural types => types

end

end DataType

end SinFrontend
