import SinFrontend.DataType

/-!
# Decorated types

The text of a type inside the key of a symbol:

    decoration ::= letter ["?" struct name "?"] qualities [":" number] ["&" decoration+]

The letter names the kind, the qualities are capital letters, the number is the length of an array
or the number of members of a tuple, and the contained types follow without separators.
-/

namespace SinFrontend.DataType

mutual

/-- The decoration of a type. A length that is not known counts as zero. -/
def decoration : DataType → String
  | ⟨kind, contained, qualities, length, structName⟩ =>
    let name := if kind == .struct then "?" ++ structName.getD "" ++ "?" else ""
    let number := match kind with
      | .array => ":" ++ toString length.known
      | .tuple => ":" ++ toString contained.length
      | _ => ""
    let parts := if contained.isEmpty then "" else "&" ++ decorations contained
    String.singleton kind.letter ++ name ++ qualities.decoration ++ number ++ parts
termination_by structural type => type

/-- The decorations of types, one after the other. -/
def decorations : List DataType → String
  | [] => ""
  | type :: types => type.decoration ++ decorations types
termination_by structural types => types

end

end SinFrontend.DataType
