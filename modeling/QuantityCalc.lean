import QuantityCalc.Builtin
import QuantityCalc.Command.Basic
import QuantityCalc.Command.Keyword
import QuantityCalc.Decimal.Basic
import QuantityCalc.Decimal.Display
import QuantityCalc.Decimal.Reading
import QuantityCalc.Dimension.Basic
import QuantityCalc.Error
import QuantityCalc.Expression.Basic
import QuantityCalc.Expression.Operand
import QuantityCalc.Expression.Yard
import QuantityCalc.Function.Draft
import QuantityCalc.Interpreter
import QuantityCalc.Lexeme.Basic
import QuantityCalc.Lexeme.Number
import QuantityCalc.Lexeme.Operator
import QuantityCalc.Lexeme.Sequence
import QuantityCalc.Main
import QuantityCalc.Postfix
import QuantityCalc.Program.Arguments
import QuantityCalc.Program.Basic
import QuantityCalc.Proofs.Command.Errors
import QuantityCalc.Proofs.Command.Places
import QuantityCalc.Proofs.Command.Refused
import QuantityCalc.Proofs.Decimal.Display
import QuantityCalc.Proofs.Dimension.Exact
import QuantityCalc.Proofs.Dimension.Laws
import QuantityCalc.Proofs.Except
import QuantityCalc.Proofs.Expression.Dimensions
import QuantityCalc.Proofs.Expression.Elements
import QuantityCalc.Proofs.Expression.Height
import QuantityCalc.Proofs.Expression.Levels
import QuantityCalc.Proofs.Expression.Located
import QuantityCalc.Proofs.Expression.Places
import QuantityCalc.Proofs.Expression.Reading
import QuantityCalc.Proofs.Expression.Retyped
import QuantityCalc.Proofs.Expression.Rounds
import QuantityCalc.Proofs.Expression.Sentences
import QuantityCalc.Proofs.Expression.Tree
import QuantityCalc.Proofs.Expression.Typed
import QuantityCalc.Proofs.Expression.Unterminated
import QuantityCalc.Proofs.Expression.Variables
import QuantityCalc.Proofs.Expression.Verdict
import QuantityCalc.Proofs.Expression.Words
import QuantityCalc.Proofs.Function.Body
import QuantityCalc.Proofs.Function.Draft
import QuantityCalc.Proofs.Function.Heading
import QuantityCalc.Proofs.Function.Legible
import QuantityCalc.Proofs.Function.Places
import QuantityCalc.Proofs.Function.RoundTrip
import QuantityCalc.Proofs.Label.Calls
import QuantityCalc.Proofs.Label.Capture
import QuantityCalc.Proofs.Label.Combined
import QuantityCalc.Proofs.Label.Commands
import QuantityCalc.Proofs.Label.Declaration
import QuantityCalc.Proofs.Label.Denoted
import QuantityCalc.Proofs.Label.Expressions
import QuantityCalc.Proofs.Label.Labelling
import QuantityCalc.Proofs.Label.Quantity
import QuantityCalc.Proofs.Label.ReadBack
import QuantityCalc.Proofs.Label.Rendering
import QuantityCalc.Proofs.Label.Sessions
import QuantityCalc.Proofs.Label.System
import QuantityCalc.Proofs.Label.Unit
import QuantityCalc.Proofs.Label.Yields
import QuantityCalc.Proofs.Lexeme.Break
import QuantityCalc.Proofs.Lexeme.Cover
import QuantityCalc.Proofs.Quantity.Infinite
import QuantityCalc.Proofs.Quantity.Powers
import QuantityCalc.Proofs.Run.Breaches
import QuantityCalc.Proofs.Run.Calls
import QuantityCalc.Proofs.Run.Commands
import QuantityCalc.Proofs.Run.Conforms
import QuantityCalc.Proofs.Run.Entries
import QuantityCalc.Proofs.Run.Expressions
import QuantityCalc.Proofs.Run.Idle
import QuantityCalc.Proofs.Run.Invariants
import QuantityCalc.Proofs.Run.Outcome
import QuantityCalc.Proofs.Run.Reachable
import QuantityCalc.Proofs.Script.Search
import QuantityCalc.Proofs.Session.Apart
import QuantityCalc.Proofs.Session.Changes
import QuantityCalc.Proofs.Session.Errors
import QuantityCalc.Proofs.Session.Evolution
import QuantityCalc.Proofs.Session.Meanings
import QuantityCalc.Proofs.Session.Moves
import QuantityCalc.Proofs.Session.Paths
import QuantityCalc.Proofs.Session.Refusals
import QuantityCalc.Proofs.Session.Valid
import QuantityCalc.Proofs.Session.Visible
import QuantityCalc.Proofs.Text.Order
import QuantityCalc.Proofs.Text.Place
import QuantityCalc.Proofs.Trailer.Commands
import QuantityCalc.Proofs.Trailer.Comments
import QuantityCalc.Proofs.Trailer.Draft
import QuantityCalc.Proofs.Trailer.Expressions
import QuantityCalc.Proofs.Trailer.Repeats
import QuantityCalc.Proofs.Trailer.Runs
import QuantityCalc.Proofs.Trailer.Semicolons
import QuantityCalc.Proofs.Trailer.Text
import QuantityCalc.Proofs.Twin.Accord
import QuantityCalc.Proofs.Twin.Calls
import QuantityCalc.Proofs.Twin.Commands
import QuantityCalc.Proofs.Twin.Expressions
import QuantityCalc.Proofs.Twin.Follows
import QuantityCalc.Proofs.Twin.Lexical
import QuantityCalc.Proofs.Twin.Moves
import QuantityCalc.Proofs.Twin.Nesting
import QuantityCalc.Proofs.Twin.Options
import QuantityCalc.Proofs.Twin.Precision
import QuantityCalc.Proofs.Unit.Atoms
import QuantityCalc.Proofs.Unit.Behind
import QuantityCalc.Proofs.Unit.Break
import QuantityCalc.Proofs.Unit.Grammar
import QuantityCalc.Proofs.Unit.Growth
import QuantityCalc.Proofs.Unit.History
import QuantityCalc.Proofs.Unit.Longest
import QuantityCalc.Proofs.Unit.Occurrences
import QuantityCalc.Proofs.Unit.Places
import QuantityCalc.Proofs.Unit.Registration
import QuantityCalc.Proofs.Unit.Rest
import QuantityCalc.Proofs.Unit.Symbols
import QuantityCalc.Quantity.Basic
import QuantityCalc.Script.Disk
import QuantityCalc.Script.Files
import QuantityCalc.Script.Path
import QuantityCalc.Session.Basic
import QuantityCalc.Session.Bindings
import QuantityCalc.Session.Calls
import QuantityCalc.Session.Names
import QuantityCalc.Session.Scope
import QuantityCalc.Session.Scripts
import QuantityCalc.Settings.Assignment
import QuantityCalc.Settings.Basic
import QuantityCalc.Settings.Key
import QuantityCalc.Settings.LogFile
import QuantityCalc.Settings.Sources
import QuantityCalc.Settings.Toml.Basic
import QuantityCalc.Settings.Toml.Document
import QuantityCalc.Settings.Toml.Quoted
import QuantityCalc.Settings.Toml.Scalar
import QuantityCalc.Settings.Value
import QuantityCalc.Settings.VariableFile
import QuantityCalc.Settings.Variables
import QuantityCalc.Text.Basic
import QuantityCalc.Text.Cursor
import QuantityCalc.Text.Letter
import QuantityCalc.Text.Reader
import QuantityCalc.Unit.Basic
import QuantityCalc.Unit.Error
import QuantityCalc.Unit.International
import QuantityCalc.Unit.Reading
import QuantityCalc.Unit.Registration
import QuantityCalc.Unit.Resolution
import QuantityCalc.Unit.System
