import ConsLisp.Builtin
import ConsLisp.Builtin.Arithmetic
import ConsLisp.Builtin.Control
import ConsLisp.Builtin.Run
import ConsLisp.Environment
import ConsLisp.Environment.Frame
import ConsLisp.Environment.ScopeTree
import ConsLisp.Error
import ConsLisp.Evaluation
import ConsLisp.Evaluation.Call
import ConsLisp.Evaluation.Machine
import ConsLisp.Evaluation.Rules
import ConsLisp.Form.Reading
import ConsLisp.Form.Stream
import ConsLisp.Main
import ConsLisp.Number.Arithmetic
import ConsLisp.Number.Binary
import ConsLisp.Number.Integer
import ConsLisp.Number.Literal
import ConsLisp.Number.Numeral
import ConsLisp.Number.Shortest
import ConsLisp.Number.Written
import ConsLisp.Parameter.Syntax
import ConsLisp.Parameter.Validity
import ConsLisp.Proofs.Environment
import ConsLisp.Proofs.Evaluation.Budget
import ConsLisp.Proofs.Evaluation.Builtins
import ConsLisp.Proofs.Evaluation.Calls
import ConsLisp.Proofs.Evaluation.Canonical
import ConsLisp.Proofs.Evaluation.Errors
import ConsLisp.Proofs.Evaluation.Frames
import ConsLisp.Proofs.Evaluation.Invariant
import ConsLisp.Proofs.Evaluation.Runtime
import ConsLisp.Proofs.Form.Acceptance
import ConsLisp.Proofs.Form.Closure
import ConsLisp.Proofs.Form.Grammar
import ConsLisp.Proofs.Form.Iteration
import ConsLisp.Proofs.Form.Reading
import ConsLisp.Proofs.Form.Rejection
import ConsLisp.Proofs.Form.Sources
import ConsLisp.Proofs.Interpretation
import ConsLisp.Proofs.Number.Integer
import ConsLisp.Proofs.Parameter
import ConsLisp.Proofs.Result
import ConsLisp.Proofs.RoundTrip
import ConsLisp.Proofs.Session
import ConsLisp.Proofs.Text.Utf8
import ConsLisp.Proofs.Token.Characters
import ConsLisp.Proofs.Token.Delivery
import ConsLisp.Proofs.Token.Scan
import ConsLisp.Proofs.Token.Spelling
import ConsLisp.Proofs.Value.Depth
import ConsLisp.Proofs.Value.List
import ConsLisp.Proofs.Value.Printer
import ConsLisp.Session
import ConsLisp.Shell.Command
import ConsLisp.Shell.Directory
import ConsLisp.Shell.Options
import ConsLisp.Shell.Repl
import ConsLisp.Shell.Settings
import ConsLisp.Text.Blank
import ConsLisp.Text.DecimalDigit
import ConsLisp.Text.Printable
import ConsLisp.Text.Quoted
import ConsLisp.Text.Surrogate
import ConsLisp.Text.Uppercase
import ConsLisp.Text.Utf8
import ConsLisp.Token
import ConsLisp.Token.Lexer
import ConsLisp.Token.Outcomes
import ConsLisp.Token.Progress
import ConsLisp.Token.Scan
import ConsLisp.Token.Source
import ConsLisp.Value
import ConsLisp.Value.Equality
import ConsLisp.Value.Kind
import ConsLisp.Value.List
import ConsLisp.Value.Printer
import ConsLisp.Proofs.Token.Buffering
import ConsLisp.Proofs.Environment.History
import ConsLisp.Proofs.Evaluation.Runs
import ConsLisp.Proofs.Environment.Addition
import ConsLisp.Proofs.Evaluation.Hygiene
import ConsLisp.Proofs.Value.Weight
import ConsLisp.Proofs.Evaluation.FirstOrder
import ConsLisp.Proofs.Evaluation.Termination
import ConsLisp.Proofs.Token.Lexemes
import ConsLisp.Proofs.Token.WholeCharacters
import ConsLisp.Proofs.Evaluation.Output
import ConsLisp.Proofs.Form.Concatenation
import ConsLisp.Proofs.Shell.Submissions
import ConsLisp.Proofs.Shell.Loading
import ConsLisp.Proofs.Session.Sources
import ConsLisp.Proofs.Shell.Survival
import ConsLisp.Proofs.Number.Bits
import ConsLisp.Proofs.Number.Nearest
import ConsLisp.Proofs.Number.Shortest
import ConsLisp.Proofs.Number.Numeral
import ConsLisp.Proofs.Text.Uppercase
import ConsLisp.Proofs.Form.Atoms
import ConsLisp.Proofs.Token.Names
import ConsLisp.Proofs.Form.Leaves
import ConsLisp.Proofs.Form.Layout
import ConsLisp.Proofs.Token.Extent
import ConsLisp.Proofs.Value.Unwritable
import ConsLisp.Proofs.Form.Behind
import ConsLisp.Proofs.Rereading
import ConsLisp.Proofs.Value.SameTree
import ConsLisp.Proofs.Value.Equality
import ConsLisp.Proofs.Evaluation.Binding
import ConsLisp.Proofs.Evaluation.Control
import ConsLisp.Proofs.Shell.Continuation
import ConsLisp.Proofs.Form.Demand
import ConsLisp.Proofs.Number.Literal
import ConsLisp.Proofs.Token.Classification
import ConsLisp.Proofs.Token.Lines
import ConsLisp.Proofs.Value.Walk
import ConsLisp.Proofs.Parameter.Validity
import ConsLisp.Proofs.Parameter.Syntax
import ConsLisp.Proofs.Parameter.Acceptance
import ConsLisp.Proofs.Parameter.Rereading
import ConsLisp.Proofs.Number.Positional
import ConsLisp.Proofs.Form.Peeking
import ConsLisp.Proofs.Parameter.Order
import ConsLisp.Proofs.Evaluation.Division
import ConsLisp.Proofs.Environment.Chain
