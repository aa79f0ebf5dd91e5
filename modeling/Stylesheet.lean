import Stylesheet.Checking
import Stylesheet.Command
import Stylesheet.Command.Arguments
import Stylesheet.Command.FileTree
import Stylesheet.Compilation
import Stylesheet.Css
import Stylesheet.Cursor
import Stylesheet.Diagnostic
import Stylesheet.Evaluation
import Stylesheet.Event
import Stylesheet.Excerpt
import Stylesheet.Expr
import Stylesheet.Fault
import Stylesheet.Grammar
import Stylesheet.Grammar.Document
import Stylesheet.Grammar.Expression
import Stylesheet.Grammar.Reader
import Stylesheet.Grammar.Statement
import Stylesheet.Literal
import Stylesheet.Main
import Stylesheet.Node
import Stylesheet.Number
import Stylesheet.Proofs.Environment
import Stylesheet.Proofs.Folding
import Stylesheet.Scope
import Stylesheet.Span
import Stylesheet.Text.Blank
import Stylesheet.Text.Bytes
import Stylesheet.Text.Hidden
import Stylesheet.Text.Quoted
import Stylesheet.Text.Suffix
import Stylesheet.Token
import Stylesheet.Token.Lexicon
import Stylesheet.Token.Pattern
import Stylesheet.Token.Scan
import Stylesheet.Token.Stream
import Stylesheet.Proofs.Course
import Stylesheet.Proofs.Typing
import Stylesheet.Proofs.Lexical
import Stylesheet.Proofs.Reports
import Stylesheet.Proofs.WellFormed
import Stylesheet.Proofs.Declarations
import Stylesheet.Proofs.Soundness
import Stylesheet.Proofs.Acceptance
import Stylesheet.Proofs.Derivation
import Stylesheet.Proofs.Descent
import Stylesheet.Proofs.Climbing
import Stylesheet.Proofs.Lookahead
import Stylesheet.Proofs.Parsing
import Stylesheet.Proofs.Lexemes
import Stylesheet.Proofs.RoundTrip
import Stylesheet.Proofs.Recompilation
import Stylesheet.Proofs.Blame
import Stylesheet.Proofs.Independence
import Stylesheet.Proofs.Relocation
import Stylesheet.Proofs.Boundaries
import Stylesheet.Proofs.Cuts
import Stylesheet.Proofs.Layout
import Stylesheet.Proofs.Spans
import Stylesheet.Proofs.Addresses
import Stylesheet.Proofs.Balance
import Stylesheet.Proofs.Delivery
import Stylesheet.Proofs.Placement
import Stylesheet.Proofs.Exactness
import Stylesheet.Proofs.Settled
import Stylesheet.Proofs.Conservation
import Stylesheet.Proofs.Limits
import Stylesheet.Proofs.LongestMatch
import Stylesheet.Proofs.Tiling
import Stylesheet.Proofs.Rereading
import Stylesheet.Proofs.Lines
import Stylesheet.Proofs.Markers
import Stylesheet.Proofs.Nesting
import Stylesheet.Proofs.Pointing
import Stylesheet.Proofs.History
import Stylesheet.Proofs.Routines
import Stylesheet.Proofs.Progress
import Stylesheet.Proofs.Renaming
import Stylesheet.Proofs.Stepwise
import Stylesheet.Proofs.Undetermined
