import SinFrontend.Operator

/-!
# Tokens

A token is a classified piece of source text with the line on which it starts. Numbers are kept
as text: a literal is never evaluated here, except where it is the length of an array.

* `Token.keywords` is the fixed set of reserved words; they are case-sensitive.
* `Token.isKeyword`, `Token.isPunctuation` and `Token.isOperator` compare a token with a lexeme,
  wherever the token stands.
* `Token.operator?` is the operator that a token spells.
-/

namespace SinFrontend

/-- The classes of lexemes. -/
inductive Token.Kind where
  | int | float | str | char | bool
  | identifier | keyword | punctuation | operator | eof
  deriving DecidableEq

/-- A lexeme, its class and its line, counted from one. Words, punctuation and operators are kept
as they are written, numbers without their separators, strings and characters without their
quotes. -/
structure Token where
  kind : Token.Kind
  text : String
  line : Nat
  deriving DecidableEq

namespace Token

/-- The reserved words. -/
def keywords : List String :=
  ["alloc", "and", "array", "as", "asm", "bool", "char", "const", "constexpr", "construct", "c64",
    "decl", "def", "default", "dynamic", "else", "extern", "final", "float", "free", "if",
    "include", "int", "is", "len", "let", "long", "move", "not", "null", "or", "pass", "private",
    "proc", "ptr", "public", "raw", "readonly", "realloc", "return", "short", "signed", "sincall",
    "size", "static", "string", "struct", "tuple", "typename", "unmanaged", "unsigned", "var",
    "void", "while", "windows", "xor"]

/-- Whether a word is reserved. -/
def isReserved (word : String) : Bool :=
  keywords.contains word

/-- The token that ends every token list. -/
def eof (line : Nat) : Token :=
  { kind := .eof, text := "", line }

/-- Whether a token has a given class and text. -/
def hasForm (token : Token) (kind : Kind) (text : String) : Bool :=
  token.kind == kind && token.text == text

/-- Whether a token is a given reserved word. -/
def isKeyword (token : Token) (word : String) : Bool :=
  token.hasForm .keyword word

/-- Whether a token is a given punctuation mark. -/
def isPunctuation (token : Token) (mark : String) : Bool :=
  token.hasForm .punctuation mark

/-- Whether a token is a given operator spelling. -/
def isOperator (token : Token) (symbol : String) : Bool :=
  token.hasForm .operator symbol

/-- Whether two tokens agree in class and text; where they stand does not matter. -/
def sameLexeme (token other : Token) : Bool :=
  token.hasForm other.kind other.text

/-- Whether a token is a literal value. -/
def isLiteral (token : Token) : Bool :=
  match token.kind with
  | .int | .float | .str | .char | .bool => true
  | _ => false

/-- The operator that a token spells. Some operators are words (`and`, `as`) and some are
punctuation (`(`, `[`); a literal or an identifier never spells one, whatever its text. -/
def operator? (token : Token) : Option Operator :=
  match token.kind with
  | .operator | .keyword | .punctuation => Operator.ofSymbol? token.text
  | _ => none

/-- The token as messages name it. -/
def describe (token : Token) : String :=
  match token.kind with
  | .int => "int literal " ++ token.text
  | .float => "float literal " ++ token.text
  | .str => "string literal \"" ++ token.text ++ "\""
  | .char => "char literal '" ++ token.text ++ "'"
  | .bool => "bool literal " ++ token.text
  | .identifier => "identifier '" ++ token.text ++ "'"
  | .keyword | .punctuation | .operator => "'" ++ token.text ++ "'"
  | .eof => "end of file"

end Token

end SinFrontend
