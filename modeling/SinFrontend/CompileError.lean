/-!
# Errors

A `CompileError` is a cause and the line at or near which it arose. The cause carries what its
message needs, so that the wording is decided in one place, `Cause.message`.

* `Cause.code` is the number that users look an error up by; several causes share one.
* `Cause.category` sorts the causes into five broad classes.
* `CompileError.message` is the full text of a report.
-/

namespace SinFrontend

/-- Broad classes of errors. -/
inductive ErrorCategory where
  | lexical | structural | quality | semantic | internal
  deriving DecidableEq

/-- Everything that can be wrong with a source text, or with a run over it. -/
inductive Cause where
  /-- A number with a second point. -/
  | invalidNumericLiteral (literal : String)
  /-- A character that begins no lexeme, and its position counted in characters from zero. -/
  | unrecognizedCharacter (character : Char) (position : Nat)
  | unexpectedEndOfInput
  | invalidToken (token : String)
  | invalidStatementStart (token : String)
  | expectedExpression
  | expectedFilename
  | missingSemicolon
  /-- A grouping symbol that should stand here, and what it is needed for. -/
  | missingGroupingSymbol (symbol context : String)
  | missingIdentifier (context : String)
  | invalidTypeSyntax (rule : String)
  | illegalListGrouping (symbol : String)
  | unexpectedKeyword (keyword : String)
  | emptyTuple
  | expectedInitialization
  | expectedListInitialization
  | malformedConstruct (rule : String)
  | expectedSymbolQuality (found : String)
  /-- Qualities behind an expression whose type is not known here. -/
  | unexpectedSymbolQuality
  | qualityConflict (quality : String)
  | illegalQuality (quality : String)
  | invalidType
  | invalidTypeSpecifier (name : String)
  | expectedType (found : String)
  | illegalStructName
  | noReturn
  | functionWithoutReturn (name : String)
  | illegalMoveOperator
  | expectedMoveOperator
  | invalidUnaryOperator (op : String)
  | invalidBinaryOperator (op : String)
  | illegalExpression (rule : String)
  | initializerInDeclaration
  | parameterMustBeDeclaration
  | duplicateSymbol (name : String)
  | expectedProcedure
  | unsupportedFeature (feature : String)
  | errorBudgetExceeded (errors : Nat)
  deriving DecidableEq

namespace Cause

/-- The wording of a cause. -/
def message : Cause → String
  | invalidNumericLiteral literal => s!"Invalid numeric literal '{literal}'"
  | unrecognizedCharacter character position =>
    s!"Unrecognized character '{character}' at position {position}"
  | unexpectedEndOfInput => "No more lexemes to parse"
  | invalidToken token => s!"Invalid token '{token}'"
  | invalidStatementStart token =>
    s!"Lexeme '{token}' is not a valid beginning to a statement"
  | expectedExpression => "Expected expression"
  | expectedFilename => "Expected a filename in quotes in 'include' statement"
  | missingSemicolon => "Expected a semicolon"
  | missingGroupingSymbol symbol context => s!"Expected '{symbol}' {context}"
  | missingIdentifier context => s!"Expected identifier {context}"
  | invalidTypeSyntax rule => rule
  | illegalListGrouping symbol => s!"Illegal list grouping symbol '{symbol}'"
  | unexpectedKeyword keyword => s!"Unexpected keyword '{keyword}'"
  | emptyTuple => "Tuples must list at least 1 contained type"
  | expectedInitialization => "Expected initialization"
  | expectedListInitialization => "Expected commas between initializations"
  | malformedConstruct rule => rule
  | expectedSymbolQuality found => s!"Invalid qualifier '{found}'"
  | unexpectedSymbolQuality =>
    "Expressions of this type may not utilize quality overrides; use a typecast instead"
  | qualityConflict quality =>
    s!"Symbol quality '{quality}' may not be used here (there is a conflicting quality present)"
  | illegalQuality quality => s!"Illegal symbol quality '{quality}'"
  | invalidType => "Type was parsed correctly, but violates SIN's type validity policy"
  | invalidTypeSpecifier name => s!"Invalid type specifier '{name}'"
  | expectedType found => s!"Expected a valid data type, found '{found}'"
  | illegalStructName => "Expected struct name"
  | noReturn =>
    "Return statement not found in function (perhaps not all control paths return a value?)"
  | functionWithoutReturn name =>
    s!"Function '{name}' must return a value on every path (if type is void, use 'return void')"
  | illegalMoveOperator => "Move assignment operator not supported with 'let'"
  | expectedMoveOperator => "Expected move assignment operator"
  | invalidUnaryOperator op => s!"'{op}' is not a valid unary operator"
  | invalidBinaryOperator op => s!"'{op}' may not be used as a binary operator"
  | illegalExpression rule => rule
  | initializerInDeclaration =>
    "Cannot use alloc-assign syntax in declarations unless said declaration is a default "
      ++ "function parameter"
  | parameterMustBeDeclaration =>
    "Formal parameters in a function declaration must use 'decl' (not 'alloc')"
  | duplicateSymbol name => s!"Symbol '{name}' already defined in this scope"
  | expectedProcedure => "Expected procedure expression"
  | unsupportedFeature feature => s!"Unsupported feature: {feature}"
  | errorBudgetExceeded errors => s!"Too many errors ({errors}); aborting compilation"

/-- The number under which a cause is reported. -/
def code : Cause → Nat
  | unexpectedEndOfInput => 1
  | duplicateSymbol _ => 30
  | initializerInDeclaration | parameterMustBeDeclaration => 50
  | noReturn | functionWithoutReturn _ => 52
  | invalidTypeSpecifier _ | expectedType _ => 210
  | illegalMoveOperator | expectedMoveOperator | invalidUnaryOperator _
  | invalidBinaryOperator _ => 212
  | invalidType => 220
  | illegalStructName => 226
  | qualityConflict _ => 230
  | illegalQuality _ => 231
  | illegalExpression _ => 300
  | malformedConstruct _ => 331
  | expectedProcedure | unsupportedFeature _ => 390
  | unrecognizedCharacter _ _ | invalidToken _ | invalidStatementStart _ | expectedExpression
  | expectedFilename => 400
  | invalidNumericLiteral _ => 401
  | expectedSymbolQuality _ => 402
  | missingSemicolon => 404
  | missingGroupingSymbol _ _ => 405
  | missingIdentifier _ => 406
  | invalidTypeSyntax _ | illegalListGrouping _ => 407
  | unexpectedKeyword _ => 410
  | unexpectedSymbolQuality => 412
  | expectedInitialization => 421
  | expectedListInitialization => 422
  | emptyTuple => 430
  | errorBudgetExceeded _ => 500

/-- The class of a cause. What is neither lexical, about qualities, about meaning nor internal is
a fault in the structure of the text. -/
def category : Cause → ErrorCategory
  | invalidNumericLiteral _ | unrecognizedCharacter _ _ => .lexical
  | expectedSymbolQuality _ | unexpectedSymbolQuality | qualityConflict _ | illegalQuality _ =>
    .quality
  | noReturn | functionWithoutReturn _ | illegalMoveOperator | expectedMoveOperator
  | invalidUnaryOperator _ | invalidBinaryOperator _ | illegalExpression _ | invalidType
  | duplicateSymbol _ => .semantic
  | expectedProcedure | unsupportedFeature _ | errorBudgetExceeded _ => .internal
  | _ => .structural

end Cause

/-- A cause at or near a line. -/
structure CompileError where
  cause : Cause
  line : Nat
  deriving DecidableEq

namespace CompileError

/-- The report of an error as users read it. -/
def message (error : CompileError) : String :=
  s!"Compiler error C{error.cause.code}: {error.cause.message} (error occurred at or near line {error.line})"

end CompileError

end SinFrontend
