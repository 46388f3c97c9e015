import SinFrontend.Operator

/-!
# Lexemes

How the characters of a source text divide into gaps and lexemes. Each `split` function cuts a
list of characters into the longest leading piece of its class and what follows that piece, so
that nothing is lost: the two parts put together are the list.

* `splitGap` takes white space and comments.
* `splitWord` and `splitNumber` take the characters that continue a word or a number.
* `splitQuoted` takes the inside of a string or character literal, up to the closing quote.
* `splitOperator` takes the longest text that can be grown, character by character, towards an
  operator.
-/

namespace SinFrontend.Lexeme

/-! ## Character classes -/

/-- White space. -/
def isBlank (c : Char) : Bool :=
  c == ' ' || c == '\t' || c == '\r' || c == '\n'

/-- A character that may begin a word: an ASCII letter or an underscore. -/
def startsWord (c : Char) : Bool :=
  c == '_' || c.isAlpha

/-- A character that may continue a word. -/
def continuesWord (c : Char) : Bool :=
  c == '_' || c.isAlphanum

/-- A character that may continue a number. -/
def continuesNumber (c : Char) : Bool :=
  c == '.' || c == '_' || c.isDigit

/-- The punctuation marks, each a lexeme of its own. -/
def isPunctuation (c : Char) : Bool :=
  [',', ';', '[', ']', '\x7b', '\x7d', '(', ')'].contains c

/-- The characters that may begin an operator, whether or not one does begin with them. -/
def startsOperator (c : Char) : Bool :=
  ['.', '+', '-', '*', '/', '%', '=', '&', '|', '^', '<', '>', '$', '?', '!', '~', '@', '#',
    ':'].contains c

/-! ## Gaps -/

/-- Where in a gap the reader stands. -/
inductive Gap where
  | blank
  | lineComment
  | blockComment

/-- Cuts off the leading white space and comments. A line comment reaches through its newline; a
block comment does not nest, and one that is never closed reaches to the end of the text. -/
def splitGap : Gap → List Char → List Char × List Char
  | .blank, '/' :: '/' :: rest =>
    let (gap, after) := splitGap .lineComment rest
    ('/' :: '/' :: gap, after)
  | .blank, '/' :: '*' :: rest =>
    let (gap, after) := splitGap .blockComment rest
    ('/' :: '*' :: gap, after)
  | .blank, c :: rest =>
    if isBlank c then
      let (gap, after) := splitGap .blank rest
      (c :: gap, after)
    else ([], c :: rest)
  | .lineComment, c :: rest =>
    let (gap, after) := splitGap (if c == '\n' then .blank else .lineComment) rest
    (c :: gap, after)
  | .blockComment, '*' :: '/' :: rest =>
    let (gap, after) := splitGap .blank rest
    ('*' :: '/' :: gap, after)
  | .blockComment, c :: rest =>
    let (gap, after) := splitGap .blockComment rest
    (c :: gap, after)
  | _, [] => ([], [])
termination_by structural _ chars => chars

/-! ## Lexemes -/

/-- Cuts off the characters of a word. -/
def splitWord (chars : List Char) : List Char × List Char :=
  (chars.takeWhile continuesWord, chars.dropWhile continuesWord)

/-- Cuts off the characters of a number. -/
def splitNumber (chars : List Char) : List Char × List Char :=
  (chars.takeWhile continuesNumber, chars.dropWhile continuesNumber)

/-- Cuts off the inside of a quoted literal. A backslash keeps the character behind it from
closing the literal; both stay in the text. The rest begins with the closing quote, or is empty
if there is none. -/
def splitQuoted (quote : Char) : List Char → List Char × List Char
  | '\\' :: c :: rest =>
    let (body, after) := splitQuoted quote rest
    ('\\' :: c :: body, after)
  | c :: rest =>
    if c == quote then ([], c :: rest)
    else
      let (body, after) := splitQuoted quote rest
      (c :: body, after)
  | [] => ([], [])

/-- Grows `symbol` by the characters that follow as long as some operator starts with it, and
returns what was added. -/
def splitOperatorAfter (symbol : List Char) : List Char → List Char × List Char
  | c :: rest =>
    if Operator.startsSymbol (String.ofList (symbol ++ [c])) then
      let (added, after) := splitOperatorAfter (symbol ++ [c]) rest
      (c :: added, after)
    else ([], c :: rest)
  | [] => ([], [])

/-- Cuts off the longest leading text that some operator starts with. -/
def splitOperator (chars : List Char) : List Char × List Char :=
  splitOperatorAfter [] chars

/-! ## Nothing is lost -/

theorem splitGap_append (mode : Gap) (chars : List Char) :
    (splitGap mode chars).1 ++ (splitGap mode chars).2 = chars := by
  fun_induction splitGap mode chars <;> simp_all

theorem splitQuoted_append (quote : Char) (chars : List Char) :
    (splitQuoted quote chars).1 ++ (splitQuoted quote chars).2 = chars := by
  fun_induction splitQuoted quote chars <;> simp_all

theorem splitOperatorAfter_append (symbol chars : List Char) :
    (splitOperatorAfter symbol chars).1 ++ (splitOperatorAfter symbol chars).2 = chars := by
  fun_induction splitOperatorAfter symbol chars <;> simp_all

theorem splitOperator_append (chars : List Char) :
    (splitOperator chars).1 ++ (splitOperator chars).2 = chars :=
  splitOperatorAfter_append [] chars

end SinFrontend.Lexeme
