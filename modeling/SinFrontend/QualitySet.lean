import SinFrontend.Quality

/-!
# Sets of qualities

The qualities attached to a type. A set starts out managed and otherwise empty, and grows one
quality at a time under these rules:

* `const` and `final` exclude each other: adding one beside the other is a conflict, and leaves
  the set as it was;
* `long` and `short` replace each other;
* `unsigned` withdraws `signed`, while `signed` leaves `unsigned` standing;
* `unmanaged` withdraws the default of being managed.

`addEach` adds a list of qualities and stops at the first conflict. It returns the set as it then
stands together with the conflict, because what was added before the conflict stays.
-/

namespace SinFrontend

/-- The qualities that hold of a type. -/
structure QualitySet where
  const : Bool := false
  final : Bool := false
  static : Bool := false
  dynamic : Bool := false
  signed : Bool := false
  unsigned : Bool := false
  long : Bool := false
  short : Bool := false
  external : Bool := false
  managed : Bool := true
  deriving DecidableEq

namespace QualitySet

/-- The set with nothing said: managed memory, and no quality listed. -/
def empty : QualitySet := {}

/-! ## Growing a set -/

/-- Adds one quality. -/
def add (set : QualitySet) (quality : Quality) : Except QualityConflict QualitySet :=
  match quality with
  | .const => if set.final then .error ⟨quality⟩ else .ok { set with const := true }
  | .final => if set.const then .error ⟨quality⟩ else .ok { set with final := true }
  | .static => .ok { set with static := true }
  | .dynamic => .ok { set with dynamic := true }
  | .signed => .ok { set with signed := true }
  | .unsigned => .ok { set with signed := false, unsigned := true }
  | .long => .ok { set with short := false, long := true }
  | .short => .ok { set with long := false, short := true }
  | .external => .ok { set with external := true }
  | .unmanaged => .ok { set with managed := false }

/-- Adds qualities in order up to the first conflict. -/
def addEach (set : QualitySet) : List Quality → QualitySet × Option QualityConflict
  | [] => (set, none)
  | quality :: rest =>
    match set.add quality with
    | .ok grown => grown.addEach rest
    | .error conflict => (set, some conflict)

/-- The set of a list of qualities, added in order. -/
def ofList (qualities : List Quality) : Except QualityConflict QualitySet :=
  match empty.addEach qualities with
  | (set, none) => .ok set
  | (_, some conflict) => .error conflict

/-- The set of single flags. Of `const` and `dynamic` the first wins; of `long` and `short`
together neither is kept. -/
def ofFlags (const static dynamic signed long short external : Bool) : QualitySet :=
  { const, static, signed, external,
    dynamic := dynamic && !const,
    long := long && !short,
    short := short && !long }

/-! ## Reading a set -/

/-- Whether a quality is listed in a set. Being managed is the default and is never listed. -/
def lists (set : QualitySet) : Quality → Bool
  | .const => set.const
  | .final => set.final
  | .static => set.static
  | .dynamic => set.dynamic
  | .signed => set.signed
  | .unsigned => set.unsigned
  | .long => set.long
  | .short => set.short
  | .external => set.external
  | .unmanaged => !set.managed

/-- The listed qualities, in their fixed order. -/
def listed (set : QualitySet) : List Quality :=
  Quality.all.filter set.lists

/-- Adds every quality that another set lists, in order, up to the first conflict. -/
def addAll (set other : QualitySet) : QualitySet × Option QualityConflict :=
  set.addEach other.listed

/-- Whether a sign was chosen. -/
def hasSign (set : QualitySet) : Bool :=
  set.signed || set.unsigned

/-- The flags of a set, each with its letter in a decorated name. -/
def flags (set : QualitySet) : List (Bool × Char) :=
  [(set.const, 'C'), (set.final, 'F'), (set.static, 'S'), (set.dynamic, 'D'), (set.signed, 'G'),
    (set.unsigned, 'U'), (set.long, 'L'), (set.short, 'H'), (set.external, 'X'),
    (set.managed, 'M')]

/-- The letters of the flags that are set. -/
def decoration (set : QualitySet) : String :=
  String.ofList ((set.flags.filter (·.1)).map (·.2))

/-- The listed words, separated by single spaces. -/
def text (set : QualitySet) : String :=
  " ".intercalate (set.listed.map Quality.word)

/-- Whether a source of qualities `source` may be stored behind a target of these qualities. A
const target takes anything, a final one anything but a const, and one that may be changed takes
neither const nor final. -/
def acceptsPromotion (target source : QualitySet) : Bool :=
  if target.const then true
  else if target.final then !source.const
  else !(source.const || source.final)

end QualitySet

end SinFrontend
