import SinFrontend.Token

/-!
# Cursors over tokens

A cursor is a place in a list of tokens: the tokens before it, the token it stands on, and the
tokens behind that one. It never moves past an end of input, and it never moves before the first
token.

`Cursor.ofTokens` closes a list of tokens by an end of input unless the list already ends in one.
-/

namespace SinFrontend

/-- A place in a list of tokens. -/
structure Cursor where
  /-- The tokens before the place, the nearest first. -/
  passed : List Token
  current : Token
  /-- The tokens behind the place, in order. -/
  rest : List Token
  deriving DecidableEq

namespace Cursor

/-- The cursor at the beginning of a list of tokens. An added end of input stands on the line of
the last token. -/
def ofTokens : List Token → Cursor
  | [] => { passed := [], current := Token.eof 1, rest := [] }
  | first :: rest =>
    let last := rest.getLast?.getD first
    { passed := [], current := first,
      rest := if last.kind == .eof then rest else rest ++ [Token.eof last.line] }

/-! ## Reading -/

/-- How many tokens there are before, at and behind the cursor. -/
def size (cursor : Cursor) : Nat :=
  cursor.passed.length + 1 + cursor.rest.length

/-- The tokens from the cursor on. -/
def ahead (cursor : Cursor) : List Token :=
  cursor.current :: cursor.rest

/-- Whether the cursor stands on an end of input. -/
def atEnd (cursor : Cursor) : Bool :=
  cursor.current.kind == .eof

/-- The token before the cursor; at the beginning, the token that the cursor stands on. -/
def previous (cursor : Cursor) : Token :=
  cursor.passed.head?.getD cursor.current

/-! ## Moving -/

/-- One token forward. On an end of input the cursor stays where it is. -/
def advance (cursor : Cursor) : Cursor :=
  if cursor.atEnd then cursor
  else
    match cursor.rest with
    | [] => cursor
    | next :: rest => { passed := cursor.current :: cursor.passed, current := next, rest }

/-- One token back. At the beginning the cursor stays where it is. -/
def retreat (cursor : Cursor) : Cursor :=
  match cursor.passed with
  | [] => cursor
  | last :: passed => { passed, current := last, rest := cursor.current :: cursor.rest }

/-- Several tokens forward. -/
def advanceBy (cursor : Cursor) : Nat → Cursor
  | 0 => cursor
  | count + 1 => cursor.advance.advanceBy count

/-- Back until no more than `count` tokens lie before the cursor. -/
def retreatTo (cursor : Cursor) (count : Nat) : Cursor :=
  go (cursor.passed.length - count) cursor
where
  /-- Several tokens back. -/
  go : Nat → Cursor → Cursor
    | 0, cursor => cursor
    | steps + 1, cursor => go steps cursor.retreat

/-- Forward over the tokens of a class. -/
def skipWhile (cursor : Cursor) (p : Token → Bool) : Cursor :=
  cursor.advanceBy (cursor.ahead.takeWhile p).length

/-- The same place with another text for the token there. -/
def replaceText (cursor : Cursor) (text : String) : Cursor :=
  { cursor with current := { cursor.current with text } }

/-! ## Finding the next statement -/

/-- How many tokens belong to the statement at the beginning of a list, when it is passed over
without being understood and `depth` braces are open. It reaches through the next semicolon
outside braces, or through the brace that closes the last open one, or up to the end of input. A
closing brace outside braces closes a statement too. -/
def statementLength (depth : Nat) : List Token → Nat
  | [] => 0
  | token :: rest =>
    if token.kind == .eof then 0
    else if token.isPunctuation "\x7b" then statementLength (depth + 1) rest + 1
    else if token.isPunctuation "\x7d" then
      if depth ≤ 1 then 1 else statementLength (depth - 1) rest + 1
    else if token.isPunctuation ";" && depth == 0 then 1
    else statementLength depth rest + 1

/-- Forward over one statement that is not understood. -/
def skipStatement (cursor : Cursor) : Cursor :=
  cursor.advanceBy (statementLength 0 cursor.ahead)

end Cursor

end SinFrontend
