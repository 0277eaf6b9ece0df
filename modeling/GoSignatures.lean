import GoSignatures.Batch
import GoSignatures.Classification.MethodSet
import GoSignatures.Classification.Representable
import GoSignatures.Classification.Support
import GoSignatures.CommandLine
import GoSignatures.Config.Basic
import GoSignatures.Config.Document
import GoSignatures.Config.Loading
import GoSignatures.Config.Validation
import GoSignatures.Definition
import GoSignatures.Error
import GoSignatures.Files.Access
import GoSignatures.Files.Tree
import GoSignatures.Host
import GoSignatures.Json.Basic
import GoSignatures.Json.Printer
import GoSignatures.Json.Reader
import GoSignatures.Libraries
import GoSignatures.Log
import GoSignatures.Main
import GoSignatures.Position
import GoSignatures.Report.Basic
import GoSignatures.Report.Document
import GoSignatures.Report.Selection
import GoSignatures.Request
import GoSignatures.Resolution.Basic
import GoSignatures.Resolution.Declaration
import GoSignatures.Resolution.Entering
import GoSignatures.Resolution.Recursion
import GoSignatures.Resolution.Scope
import GoSignatures.Resolution.TypeExpr
import GoSignatures.Scope.Imports
import GoSignatures.Scope.PackageName
import GoSignatures.Source.Cursor
import GoSignatures.Source.Grammar.Basic
import GoSignatures.Source.Grammar.Declaration
import GoSignatures.Source.Grammar.Expression
import GoSignatures.Source.Grammar.Statement
import GoSignatures.Source.Grammar.Type
import GoSignatures.Source.Numeral
import GoSignatures.Source.Quotation
import GoSignatures.Source.Reading
import GoSignatures.Source.Token
import GoSignatures.Source.Tree
import GoSignatures.Text.Blank
import GoSignatures.Text.CodeRanges
import GoSignatures.Text.Identifier
import GoSignatures.Text.IntLiteral
import GoSignatures.Text.Quoted
import GoSignatures.Text.StringLiteral
import GoSignatures.Text.Unsigned
import GoSignatures.Toml.Basic
import GoSignatures.Toml.Builder
import GoSignatures.Toml.Quotation
import GoSignatures.Toml.Reader
import GoSignatures.Toml.Scalar
import GoSignatures.Ty.Basic
import GoSignatures.Ty.Equality
import GoSignatures.Ty.Kind
import GoSignatures.Ty.Printer
import GoSignatures.Ty.Substitution
import GoSignatures.Ty.Table
import GoSignatures.Ty.Universe
import GoSignatures.Ty.WellKnown
import GoSignatures.Proofs.Outcome
import GoSignatures.Proofs.Scope.Collecting
import GoSignatures.Proofs.Scope.Constants
import GoSignatures.Proofs.Recursion.ByValue
import GoSignatures.Proofs.Recursion.Detection
import GoSignatures.Proofs.Resolution.Lending
import GoSignatures.Proofs.Report.Selecting
import GoSignatures.Proofs.Report.Parting
import GoSignatures.Proofs.Resolution.Failing
import GoSignatures.Proofs.Resolution.Receivers
import GoSignatures.Proofs.Resolution.Counting
import GoSignatures.Proofs.Classification.ErrorContract
import GoSignatures.Proofs.Resolution.Termination
import GoSignatures.Proofs.Resolution.Visibility
import GoSignatures.Proofs.Classification.Obstacles
import GoSignatures.Proofs.Report.Describing
import GoSignatures.Proofs.Report.Ordering
import GoSignatures.Proofs.Report.Verdict
import GoSignatures.Proofs.Report.Restricting
import GoSignatures.Proofs.Batch.Running
import GoSignatures.Proofs.Resolution.Instantiating
import GoSignatures.Proofs.Files.Performing
import GoSignatures.Proofs.Batch.Requests
import GoSignatures.Proofs.Json.Reading
import GoSignatures.Proofs.Report.Document
import GoSignatures.Proofs.Files.Writing
import GoSignatures.Proofs.Resolution.Comparing
import GoSignatures.Proofs.Resolution.Stripping
import GoSignatures.Proofs.Resolution.Corresponding
import GoSignatures.Proofs.Resolution.Permuting
import GoSignatures.Proofs.Text.Literal
import GoSignatures.Proofs.Resolution.Variadic
import GoSignatures.Proofs.Ty.Unambiguous
import GoSignatures.Proofs.Batch.Decoding
import GoSignatures.Proofs.Config.Layering
import GoSignatures.Proofs.Text.Integer
import GoSignatures.Proofs.Scope.History
import GoSignatures.Proofs.Scope.ImpliedNames
import GoSignatures.Proofs.Resolution.Chains
import GoSignatures.Proofs.Classification.Ending
import GoSignatures.Proofs.Resolution.Remembering
import GoSignatures.Proofs.Resolution.Restoring
import GoSignatures.Proofs.Resolution.Reflecting
import GoSignatures.Proofs.Resolution.Mirroring
import GoSignatures.Proofs.Resolution.Repeating
import GoSignatures.Proofs.Resolution.Retyping
