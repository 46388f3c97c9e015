import SinFrontend.DataType

/-!
# Compatibility of types

Whether a value of one type may be used where another type is expected. References are
transparent: what counts is the type behind them. A raw type goes with everything, pointers must
not let locked data be changed behind them, and a string takes a character.
-/

namespace SinFrontend.DataType

/-- The type behind all references, or nothing if a reference has no target. -/
def behindReferences? : DataType → Option DataType
  | ⟨.reference, target :: _, _, _, _⟩ => target.behindReferences?
  | ⟨.reference, [], _, _, _⟩ => none
  | type => some type
termination_by structural type => type

mutual

/-- Whether a value of type `other` may be used where `type` is expected. -/
def isCompatible (type other : DataType) : Bool :=
  match type with
  | ⟨kind, contained, _, _, _⟩ =>
    if kind == .raw || other.kind == .raw then true
    else if kind == .reference then
      match contained with
      | target :: _ => target.isCompatible other
      | [] => false
    else
      match other.behindReferences? with
      | none => false
      | some value =>
        if value.kind == .raw then true
        else
          match kind, value.kind with
          | .ptr, .ptr =>
            match contained, value.contained with
            | target :: _, source :: _ =>
              target.isCompatible source && target.qualities.acceptsPromotion source.qualities
            | _, _ => false
          | .array, .array =>
            match contained, value.contained with
            | element :: _, source :: _ => element.isCompatible source
            | _, _ => false
          | .tuple, .tuple => areCompatible contained value.contained
          | .string, .char => true
          | expected, found => expected == found
termination_by structural type

/-- Whether two lists of types have the same length and are compatible one by one. -/
def areCompatible : List DataType → List DataType → Bool
  | [], [] => true
  | type :: types, other :: others => type.isCompatible other && areCompatible types others
  | _, _ => false
termination_by structural types => types

end

end SinFrontend.DataType
