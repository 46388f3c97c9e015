import SinFrontend.CompileError
import SinFrontend.Token
import SinFrontend.Token.Lexeme

/-!
# Reading tokens from a source text

A `Source` is the part of a text that is still to be read, with the position and the line where
it starts. Line ends are made uniform before the first character is read, so that a carriage
return before a newline counts neither as a character nor as a line.

* `Source.nextToken` skips a gap and reads one token. An operator or number that turns out to be
  malformed has been passed when the error is raised; an unknown character has not.
* `Source.tokens` reads to the end of the text or to the first error. The last token is always the
  end of input.
-/

namespace SinFrontend

/-- What is left of a source text. -/
structure Source where
  rest : List Char
  /-- The characters that were read before `rest`. -/
  position : Nat := 0
  /-- One more than the newlines that were read before `rest`. -/
  line : Nat := 1

namespace Source

/-- Drops each carriage return that stands directly before a newline. -/
def uniformLineEnds : List Char → List Char
  | '\r' :: '\n' :: rest => '\n' :: uniformLineEnds rest
  | c :: rest => c :: uniformLineEnds rest
  | [] => []

/-- A whole text, with nothing read yet. -/
def ofString (text : String) : Source :=
  { rest := uniformLineEnds text.toList }

/-- The source after a piece of it has been read. -/
def passing (source : Source) (piece rest : List Char) : Source :=
  { rest,
    position := source.position + piece.length,
    line := source.line + piece.count '\n' }

/-- The source after its leading white space and comments. -/
def skipGap (source : Source) : Source :=
  let (gap, rest) := Lexeme.splitGap .blank source.rest
  source.passing gap rest

/-! ## Reading one token -/

/-- Classifies a word. -/
def wordKind (word : String) : Token.Kind :=
  if Token.isReserved word then .keyword
  else if word == "true" || word == "false" then .bool
  else .identifier

/-- The token of a run of digits, points and underscores: the underscores are dropped, and a
point makes it a float. A second point is an error. -/
def numberToken (run : List Char) (line : Nat) : Except CompileError Token :=
  let digits := String.ofList (run.filter (· != '_'))
  match run.count '.' with
  | 0 => .ok { kind := .int, text := digits, line }
  | 1 => .ok { kind := .float, text := digits, line }
  | _ => .error ⟨.invalidNumericLiteral (String.ofList run), line⟩

/-- The token of a quoted literal whose opening quote is the first character, and the source after
the closing quote. -/
def quotedToken (kind : Token.Kind) (quote : Char) (emptyText : String) (source : Source)
    (chars : List Char) : Token × Source :=
  let (body, rest) := Lexeme.splitQuoted quote chars
  let text := if body.isEmpty then emptyText else String.ofList body
  ({ kind, text, line := source.line },
    source.passing (quote :: body ++ rest.take 1) (rest.drop 1))

/-- Reads the lexeme that begins with `c`, the first character of a source, and goes on with
`chars`. The source that comes back is where reading goes on, after an error too. -/
def readLexeme (source : Source) (c : Char) (chars : List Char) :
    Except CompileError Token × Source :=
  if c == '"' then
    let (token, after) := source.quotedToken .str c "" chars
    (.ok token, after)
  else if c == '\'' then
    -- an empty character literal stands for the character zero
    let (token, after) := source.quotedToken .char c "\\0" chars
    (.ok token, after)
  else if Lexeme.startsWord c then
    let (word, rest) := Lexeme.splitWord (c :: chars)
    let text := String.ofList word
    (.ok { kind := wordKind text, text, line := source.line }, source.passing word rest)
  else if c.isDigit then
    let (run, rest) := Lexeme.splitNumber (c :: chars)
    (numberToken run source.line, source.passing run rest)
  else if Lexeme.isPunctuation c then
    (.ok { kind := .punctuation, text := String.singleton c, line := source.line },
      source.passing [c] chars)
  else if Lexeme.startsOperator c then
    let (symbol, rest) := Lexeme.splitOperator (c :: chars)
    let text := String.ofList symbol
    if Operator.isSymbol text then
      (.ok { kind := .operator, text, line := source.line }, source.passing symbol rest)
    else
      (.error ⟨.unrecognizedCharacter c source.position, source.line⟩,
        source.passing symbol rest)
  else (.error ⟨.unrecognizedCharacter c source.position, source.line⟩, source)

/-- Skips the gap and reads one token; at the end of the text this is the end of input. -/
def nextToken (source : Source) : Except CompileError Token × Source :=
  let source := source.skipGap
  match source.rest with
  | [] => (.ok (Token.eof source.line), source)
  | c :: chars => source.readLexeme c chars

/-! ## Reading all tokens -/

theorem rest_skipGap_le (source : Source) :
    source.skipGap.rest.length ≤ source.rest.length := by
  have h := congrArg List.length (Lexeme.splitGap_append .blank source.rest)
  simp only [List.length_append] at h
  simp only [skipGap, passing]
  omega

theorem rest_quotedToken_le (kind : Token.Kind) (quote : Char) (emptyText : String)
    (source : Source) (chars : List Char) :
    (source.quotedToken kind quote emptyText chars).2.rest.length ≤ chars.length := by
  have h := congrArg List.length (Lexeme.splitQuoted_append quote chars)
  simp only [List.length_append] at h
  simp only [quotedToken, passing, List.length_drop]
  omega

theorem continuesWord_of_startsWord {c : Char} (h : Lexeme.startsWord c = true) :
    Lexeme.continuesWord c = true := by
  grind [Lexeme.startsWord, Lexeme.continuesWord, Char.isAlphanum]

theorem length_pos_of_isSymbol {symbol : List Char}
    (h : Operator.isSymbol (String.ofList symbol) = true) : 0 < symbol.length := by
  cases symbol with
  | nil => exact absurd h (by decide)
  | cons => simp

/-- A lexeme takes at least one character. -/
theorem rest_readLexeme_lt {source after : Source} {c : Char} {chars : List Char} {token : Token}
    (read : source.readLexeme c chars = (.ok token, after)) :
    after.rest.length < chars.length + 1 := by
  unfold readLexeme at read
  split at read
  · have := rest_quotedToken_le .str c "" source chars
    grind
  split at read
  · have := rest_quotedToken_le .char c "\\0" source chars
    grind
  split at read
  · have := (List.dropWhile_sublist Lexeme.continuesWord (l := chars)).length_le
    grind [Lexeme.splitWord, passing, continuesWord_of_startsWord, List.dropWhile_cons]
  split at read
  · have := (List.dropWhile_sublist Lexeme.continuesNumber (l := chars)).length_le
    grind [Lexeme.splitNumber, passing, Lexeme.continuesNumber, List.dropWhile_cons]
  split at read
  · grind [passing]
  split at read
  · have whole := congrArg List.length (Lexeme.splitOperator_append (c :: chars))
    grind [passing, length_pos_of_isSymbol]
  · grind

/-- Reading a token that is not the end of input leaves less to read. -/
theorem rest_nextToken_lt {source after : Source} {token : Token}
    (read : source.nextToken = (.ok token, after)) (more : token.kind ≠ .eof) :
    after.rest.length < source.rest.length := by
  have gap := rest_skipGap_le source
  unfold nextToken at read
  cases rest : source.skipGap.rest with
  | nil => grind [Token.eof]
  | cons c chars =>
    have := rest_readLexeme_lt (by simpa only [rest] using read)
    grind

/-- All tokens of a source, or its first error. -/
def tokens (source : Source) : Except CompileError (List Token) :=
  match _read : source.nextToken with
  | (.error error, _) => .error error
  | (.ok token, after) =>
    if _more : token.kind ≠ .eof then (tokens after).map (token :: ·) else .ok [token]
termination_by source.rest.length
decreasing_by exact rest_nextToken_lt _read _more

end Source

/-- The tokens of a text, closed by the end of input. -/
def Token.ofText (text : String) : Except CompileError (List Token) :=
  (Source.ofString text).tokens

end SinFrontend
