/-!
# Qualities

The words that qualify a type: whether it may change, how long it lives, its sign, its width, its
linkage and who manages its memory.
-/

namespace SinFrontend

/-- A single quality. -/
inductive Quality where
  | const | final | static | dynamic | signed | unsigned | long | short | external | unmanaged
  deriving DecidableEq

namespace Quality

/-- The word of a quality. -/
def word : Quality → String
  | const => "const"
  | final => "final"
  | static => "static"
  | dynamic => "dynamic"
  | signed => "signed"
  | unsigned => "unsigned"
  | long => "long"
  | short => "short"
  | external => "extern"
  | unmanaged => "unmanaged"

/-- All qualities, in the order in which a set lists them. -/
def all : List Quality :=
  [const, final, static, dynamic, signed, unsigned, long, short, external, unmanaged]

/-- The quality that a word names. -/
def ofWord? (word : String) : Option Quality :=
  all.find? (·.word == word)

/-- The qualities of width and sign. -/
def isNumeric : Quality → Bool
  | long | short | signed | unsigned => true
  | _ => false

end Quality

/-- A quality that contradicts one already present. -/
structure QualityConflict where
  quality : Quality
  deriving DecidableEq

namespace QualityConflict

/-- The conflict as messages describe it. -/
def message (conflict : QualityConflict) : String :=
  s!"quality '{conflict.quality.word}' conflicts with a quality already present"

end QualityConflict

end SinFrontend
