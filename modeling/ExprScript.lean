import ExprScript.Console
import ExprScript.Diagnostic
import ExprScript.Eval.Error
import ExprScript.Eval.Expr
import ExprScript.Eval.Machine
import ExprScript.Eval.Operation
import ExprScript.Expr
import ExprScript.Function
import ExprScript.Generator
import ExprScript.Grammar.Cursor
import ExprScript.Grammar.Expression
import ExprScript.Grammar.Program
import ExprScript.Grammar.Statement
import ExprScript.Lexeme
import ExprScript.Main
import ExprScript.Number.Exact
import ExprScript.Number.Remainder
import ExprScript.Number.Shortest
import ExprScript.Number.Text
import ExprScript.Number.Whole
import ExprScript.Operator
import ExprScript.Scope
import ExprScript.Session
import ExprScript.Space
import ExprScript.Token
import ExprScript.Ty
import ExprScript.Ty.Infer
import ExprScript.Ty.Usage
import ExprScript.Value
import ExprScript.Proofs.Lexing.Columns
import ExprScript.Proofs.Reading.Composed
import ExprScript.Proofs.Reading.Advance
import ExprScript.Proofs.Tree.Grouping
import ExprScript.Proofs.Tree.Reshape
import ExprScript.Proofs.Ty.Reshape
import ExprScript.Proofs.Tree.Spelling
import ExprScript.Proofs.Reading.Sound
import ExprScript.Proofs.Program.Cut
import ExprScript.Proofs.Program.Sound
import ExprScript.Proofs.Eval.Restore
import ExprScript.Proofs.Program.Complete
import ExprScript.Proofs.Ty.Sound
import ExprScript.Proofs.Session.Restore
import ExprScript.Proofs.Lexing.Append
import ExprScript.Proofs.Tree.Relocate
import ExprScript.Proofs.Ty.Relocate
import ExprScript.Proofs.Follow
import ExprScript.Proofs.Reading.Follow
import ExprScript.Proofs.Program.Relocate
import ExprScript.Proofs.Program.Append
import ExprScript.Proofs.Program.Report
import ExprScript.Proofs.Eval.Follow
import ExprScript.Proofs.Eval.Flat
import ExprScript.Proofs.Eval.Limits
import ExprScript.Proofs.Session.Limits
import ExprScript.Proofs.Lexing.Names
import ExprScript.Proofs.Reading.Declaration
import ExprScript.Proofs.Reading.Order
import ExprScript.Proofs.Program.Declare
import ExprScript.Proofs.Program.Order
import ExprScript.Proofs.Session.Declare
import ExprScript.Proofs.Eval.Parametric
import ExprScript.Proofs.Eval.Terminate
import ExprScript.Proofs.Tree.Named
import ExprScript.Proofs.Ty.Usage
import ExprScript.Proofs.Eval.Missing
import ExprScript.Proofs.Program.Whole
import ExprScript.Proofs.Session.Whole
import ExprScript.Proofs.Tree.Chain
import ExprScript.Proofs.Session.Chain
import ExprScript.Proofs.Lexing.Pattern
import ExprScript.Proofs.Lexing.Longest
import ExprScript.Proofs.Lexing.Cover
import ExprScript.Proofs.Lexing.Spelling
import ExprScript.Proofs.Lexing.Line
import ExprScript.Proofs.Session.Agree
import ExprScript.Proofs.Eval.Operand
import ExprScript.Proofs.Ty.Culprit
import ExprScript.Proofs.Eval.Unchecked
import ExprScript.Proofs.Ty.Demand
import ExprScript.Proofs.Eval.Calls
import ExprScript.Proofs.Eval.Parens
import ExprScript.Proofs.Eval.Hidden
import ExprScript.Proofs.Tree.Join
import ExprScript.Proofs.Eval.Join
import ExprScript.Proofs.Eval.History
import ExprScript.Proofs.Eval.Cursor
import ExprScript.Proofs.Number.Exact
import ExprScript.Proofs.Number.Whole
import ExprScript.Proofs.Eval.Range
import ExprScript.Proofs.Ty.Monotone
import ExprScript.Proofs.Reading.Plan
import ExprScript.Proofs.Reading.Rounds
import ExprScript.Proofs.Reading.Parser
import ExprScript.Proofs.Program.Progress
