/-!
# Operators

The operators of SIN expressions, their spellings, and how tightly they bind.

* `Operator.spelled` lists the operators that source text can name, in the order in which a
  spelling is looked up. The prefix forms of `+`, `-` and `*` are not in it: a spelling always
  names the infix form, and `Operator.toUnary?` gives the prefix form of an operator.
* `Operator.ofSymbol?` reads a spelling, `Operator.startsSymbol` tells which texts can still grow
  into one.
* `Operator.precedence` orders the operators; a higher number binds tighter.

| precedence | operators                                  |
|-----------:|--------------------------------------------|
|          1 | `->` `<-` and the compound assignments     |
|          2 | `and` `or` `xor`                           |
|          3 | `&` `\|` `^`                               |
|          7 | `=` `!=` `<` `>` `<=` `>=`                 |
|          8 | `<<` `>>`                                  |
|         10 | `+` `-`                                    |
|         15 | `*` `/` `%`                                |
|         20 | `as` and the prefix operators              |
|         23 | `:`                                        |
|         24 | `@`                                        |
|         25 | `(` `.` `[`                                |
|         30 | `::`                                       |
-/

namespace SinFrontend

/-- An operator of the expression language. The sign `=` is `equal` everywhere: it compares in an
expression and assigns in a `let`. -/
inductive Operator where
  | rightArrow | leftArrow
  | plusEqual | minusEqual | multEqual | divEqual | modEqual
  | andEqual | orEqual | xorEqual | leftShiftEqual | rightShiftEqual
  | plus | minus | unaryPlus | unaryMinus | mult | div | modulo
  | equal | notEqual | greater | less | greaterOrEqual | lessOrEqual
  | and | or | xor | not
  | bitAnd | bitOr | bitXor | bitNot | leftShift | rightShift
  | dot | index | address | dereference | typecast | attributeSelection
  | controlTransfer | procOperator | scopeResolution
  deriving DecidableEq

namespace Operator

/-! ## Spellings -/

/-- The spelling of an operator. A prefix operator is spelled like its infix form. -/
def symbol : Operator → String
  | rightArrow => "->"
  | leftArrow => "<-"
  | plusEqual => "+="
  | minusEqual => "-="
  | multEqual => "*="
  | divEqual => "/="
  | modEqual => "%="
  | andEqual => "&="
  | orEqual => "|="
  | xorEqual => "^="
  | leftShiftEqual => "<<="
  | rightShiftEqual => ">>="
  | plus | unaryPlus => "+"
  | minus | unaryMinus => "-"
  | mult | dereference => "*"
  | div => "/"
  | modulo => "%"
  | equal => "="
  | notEqual => "!="
  | greater => ">"
  | less => "<"
  | greaterOrEqual => ">="
  | lessOrEqual => "<="
  | bitAnd => "&"
  | bitOr => "|"
  | bitXor => "^"
  | bitNot => "~"
  | rightShift => ">>"
  | leftShift => "<<"
  | and => "and"
  | or => "or"
  | xor => "xor"
  | not => "not"
  | typecast => "as"
  | address => "$"
  | attributeSelection => ":"
  | dot => "."
  | index => "["
  | controlTransfer => "@"
  | procOperator => "("
  | scopeResolution => "::"

/-- The operators that a spelling can name. -/
def spelled : List Operator :=
  [rightArrow, leftArrow, plusEqual, minusEqual, multEqual, divEqual, modEqual, andEqual, orEqual,
    xorEqual, leftShiftEqual, rightShiftEqual, plus, minus, mult, div, modulo, equal, notEqual,
    greater, less, greaterOrEqual, lessOrEqual, bitAnd, bitOr, bitXor, bitNot, rightShift,
    leftShift, and, or, xor, not, typecast, address, attributeSelection, dot, index,
    controlTransfer, procOperator, scopeResolution]

/-- The operator that a text spells. The text of `*` is multiplication; a dereference arises only
from its prefix position. -/
def ofSymbol? (text : String) : Option Operator :=
  spelled.find? (·.symbol == text)

/-- Whether a text is the spelling of an operator. -/
def isSymbol (text : String) : Bool :=
  (ofSymbol? text).isSome

/-- Whether some operator's spelling starts with a text. -/
def startsSymbol (text : String) : Bool :=
  spelled.any fun op => text.toList.isPrefixOf op.symbol.toList

/-! ## Binding strength and classes -/

/-- How tightly an operator binds. -/
def precedence : Operator → Nat
  | rightArrow | leftArrow | plusEqual | minusEqual | multEqual | divEqual | modEqual | andEqual
  | orEqual | xorEqual | leftShiftEqual | rightShiftEqual => 1
  | or | and | xor => 2
  | bitAnd | bitOr | bitXor => 3
  | less | greater | lessOrEqual | greaterOrEqual | equal | notEqual => 7
  | leftShift | rightShift => 8
  | plus | minus => 10
  | mult | div | modulo => 15
  | typecast | not | bitNot | unaryPlus | unaryMinus | address | dereference => 20
  | attributeSelection => 23
  | controlTransfer => 24
  | procOperator | dot | index => 25
  | scopeResolution => 30

/-- The operator that a compound assignment applies before it stores. -/
def compoundBase? : Operator → Option Operator
  | plusEqual => some plus
  | minusEqual => some minus
  | multEqual => some mult
  | divEqual => some div
  | modEqual => some modulo
  | andEqual => some bitAnd
  | orEqual => some bitOr
  | xorEqual => some bitXor
  | leftShiftEqual => some leftShift
  | rightShiftEqual => some rightShift
  | _ => none

/-- The assignments of `let`: `=` and the compound forms. -/
def isCopyAssignment (op : Operator) : Bool :=
  op == equal || op.compoundBase?.isSome

/-- The assignments of `move`: the two arrows. -/
def isMoveAssignment : Operator → Bool
  | leftArrow | rightArrow => true
  | _ => false

/-- The operator that stands for this one in prefix position, if it has a prefix form. -/
def toUnary? : Operator → Option Operator
  | plus | unaryPlus => some unaryPlus
  | minus | unaryMinus => some unaryMinus
  | mult | dereference => some dereference
  | address => some address
  | bitNot => some bitNot
  | not => some not
  | _ => none

/-- Operators that cannot stand between two operands. -/
def isPrefixOnly : Operator → Bool
  | address | bitNot | not | unaryPlus | unaryMinus | dereference | controlTransfer => true
  | _ => false

end Operator

end SinFrontend
