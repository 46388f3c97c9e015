import SinFrontend.Parser.Goal
import SinFrontend.Parser.QualityList

/-!
# Reading types

    type      ::= quality* type-name
    type-name ::= "ptr" "<" contained ">" | "ref" "<" contained ">"
                | "array" "<" [expression ","] contained ">"
                | "tuple" "<" contained ("," contained)* ">"
                | reserved word | identifier
    contained ::= type ["&" quality+]

The angle brackets that close several types at once are one token for the lexer. Closing a type
takes one bracket off such a token and leaves the others in place.
-/

namespace SinFrontend.Parser

/-! ## Closing brackets -/

/-- Whether a token consists of closing angle brackets. -/
def isClosingAngle (token : Token) : Bool :=
  token.kind == .operator && !token.text.toList.isEmpty && token.text.toList.all (· == '>')

/-- Reads one closing angle bracket, which must be next. -/
def expectClosingAngle : Parser Unit := do
  let next ← peek
  if isClosingAngle next then
    match next.text.toList with
    | _ :: more@(_ :: _) => move fun cursor => cursor.replaceText (String.ofList more)
    | _ => move Cursor.advance
  else
    reject (.missingGroupingSymbol ">" "to close contained type") next.line

/-! ## Contained types -/

/-- A type inside angle brackets. -/
def containedType (parse : Descent) : Parser DataType := do
  withPostfixedQualities (← parse .typeName)

/-- A type inside angle brackets, and its closing bracket. -/
def enclosedType (parse : Descent) : Parser DataType := do
  let type ← containedType parse
  expectClosingAngle
  return type

/-- Reads the opening angle bracket behind a type word on a line. -/
def expectOpeningAngle (rule : String) (line : Nat) : Parser Unit := do
  unless ← takeOperator "<" do
    reject (.invalidTypeSyntax rule) line

/-- An array type behind its word. A reserved word behind the bracket begins the type of the
elements; anything else is the length. -/
def arrayType (parse : Descent) (qualities : QualitySet) (line : Nat) : Parser DataType := do
  expectOpeningAngle
    "Proper syntax is 'array< N, T >' where N is an integer expression and T is the contained type"
    line
  if (← peek).kind == .keyword then
    return .arrayOf (← enclosedType parse) .unspecified qualities
  else
    let length ← parse (.expression {})
    unless ← takePunctuation "," do
      reject (.invalidTypeSyntax "The size of an array must be followed by the type") line
    return .arrayOf (← enclosedType parse) (.ofExpression length) qualities

/-- The members of a tuple, as long as a word follows. -/
def tupleMembers (parse : Descent) : Parser (List DataType) := do
  let next ← peek
  if next.kind == .keyword || next.kind == .identifier then
    let member ← containedType parse
    unless ← takePunctuation "," do
      let next ← peek
      unless isClosingAngle next do
        reject (.invalidTypeSyntax "Expected type, comma, or closing angle bracket") next.line
    return member :: (← parse .members)
  else
    return []

/-- A tuple type behind its word. -/
def tupleType (parse : Descent) (qualities : QualitySet) (line : Nat) : Parser DataType := do
  expectOpeningAngle "Proper syntax is 'tuple< T, ... >'" line
  let members ← parse .members
  expectClosingAngle
  match members with
  | [] => reject .emptyTuple line
  | [_] => note "Unnecessary tuple (contains only one element)" line
  | _ => pure ()
  return .tupleOf members qualities

/-- A pointer or reference type behind its word. -/
def indirectType (parse : Descent) (make : DataType → DataType) (line : Nat) :
    Parser DataType := do
  expectOpeningAngle "Proper syntax is 'ptr< T >' or 'ref< T >'" line
  return make (← enclosedType parse)

/-- The type that a single word names. A reserved word must name a built-in type, any other word
names a struct or a built-in type. -/
def simpleType (word : Token) (qualities : QualitySet) : Parser DataType :=
  if word.kind == .keyword || word.kind == .identifier then
    match PrimaryKind.ofName word.text with
    | .struct =>
      if word.kind == .keyword then reject (.invalidTypeSpecifier word.text) word.line
      else return .structNamed word.text qualities
    | kind => return .ofKind kind qualities
  else
    reject (.expectedType word.text) word.line

/-! ## Types -/

/-- Notes what a type asks for in vain: qualities without effect, and half precision. -/
def noteVainQualities (type : DataType) (line : Nat) : Parser Unit := do
  (type.qualities.listed.filter type.ignoresQuality).forM fun quality =>
    note s!"Quality '{quality.word}' has no effect on type '{type.kind.word}'" line
  if type.isHalfPrecision then
    warn "16-bit half-precision floats are not supported; 'short float' is single precision"
      line 3

/-- The type that begins with a word, which has been read, under the qualities before it. -/
def typeFrom (parse : Descent) (qualities : QualitySet) (word : Token) : Parser DataType :=
  if word.isKeyword "ptr" then indirectType parse (.pointerTo · qualities) word.line
  else if word.hasForm .identifier "ref" then
    indirectType parse (.referenceTo · qualities) word.line
  else if word.isKeyword "array" then arrayType parse qualities word.line
  else if word.isKeyword "tuple" then tupleType parse qualities word.line
  else simpleType word qualities

/-- A type with the qualities before it. -/
def typeNameRule (parse : Descent) : Parser DataType := do
  let line ← currentLine
  let qualities ← prefixedQualities
  let type ← typeFrom parse qualities (← advance)
  noteVainQualities type line
  return type

end SinFrontend.Parser
