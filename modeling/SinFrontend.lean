import SinFrontend.DataType.Compatibility
import SinFrontend.Main
import SinFrontend.Proofs.Agreement
import SinFrontend.Proofs.Agreement.Types
import SinFrontend.Proofs.Agreement.Expressions
import SinFrontend.Proofs.Agreement.Statements
import SinFrontend.Proofs.Descent
import SinFrontend.Proofs.Printing.Pattern
import SinFrontend.Proofs.Printing.Term
import SinFrontend.Proofs.Reading
import SinFrontend.Proofs.RoundTrip.Operators
import SinFrontend.Proofs.RoundTrip.Expression
import SinFrontend.Proofs.Printing.TypeTerm
import SinFrontend.Proofs.RoundTrip.Writing
import SinFrontend.Proofs.RoundTrip.TypeTerm
import SinFrontend.Proofs.RoundTrip.ClosingAngles
import SinFrontend.Proofs.Printing.Sentence
import SinFrontend.Proofs.RoundTrip.Declaration
import SinFrontend.Proofs.RoundTrip.Command
import SinFrontend.Proofs.RoundTrip.Sentence
import SinFrontend.Proofs.Compilation
import SinFrontend.Proofs.Names
import SinFrontend.Proofs.Symbols.Key
import SinFrontend.Proofs.Symbols.Clashes
import SinFrontend.Proofs.Symbols.ScopeText
import SinFrontend.Proofs.Types.Decoration
import SinFrontend.Proofs.Types.Layering
import SinFrontend.Proofs.Types.Promotion
import SinFrontend.Proofs.Lexing.Gaps
import SinFrontend.Proofs.Lexing.Lexemes
import SinFrontend.Proofs.Lexing.Accounts
import SinFrontend.Proofs.Lexing.Layout
import SinFrontend.Proofs.Wording.Expressions
import SinFrontend.Proofs.Symbols.Frames
import SinFrontend.Proofs.Symbols.Enclosing
import SinFrontend.Proofs.Symbols.Nearest
import SinFrontend.Proofs.Symbols.Parameters
import SinFrontend.Proofs.Symbols.Kinds
import SinFrontend.Proofs.Termination
import SinFrontend.Proofs.Recovery
import SinFrontend.Proofs.Lexing.Words
import SinFrontend.Proofs.Trees.Executions
import SinFrontend.Proofs.Trees.WellMade
import SinFrontend.Proofs.Budget
import SinFrontend.Proofs.Types.Ownership
import SinFrontend.Proofs.EndOfInput
import SinFrontend.Proofs.ElementTypes
import SinFrontend.Proofs.QualifiedNames
import SinFrontend.Proofs.Arguments
import SinFrontend.Proofs.NearestIf
import SinFrontend.Proofs.Trees.Constants
import SinFrontend.Proofs.Trees.Shapes
import SinFrontend.Proofs.Trees.Braces
import SinFrontend.Proofs.Types.Shape
import SinFrontend.Proofs.Trees.Allocations
import SinFrontend.Proofs.Semicolons
import SinFrontend.Proofs.Lists.Operands
import SinFrontend.Proofs.Climbing
import SinFrontend.Proofs.Types.Overriding
import SinFrontend.Proofs.InRange
import SinFrontend.Proofs.Lines.Layout
