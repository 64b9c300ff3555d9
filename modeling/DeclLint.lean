import DeclLint.Main
import DeclLint.Proofs.Json.Keys
import DeclLint.Proofs.Path.RoundTrip
import DeclLint.Proofs.Result
import DeclLint.Proofs.Table
import DeclLint.Proofs.Trace
import DeclLint.Proofs.Release.Order
import DeclLint.Proofs.Package.Folders
import DeclLint.Proofs.Package.Plan
import DeclLint.Proofs.Release.Install
import DeclLint.Proofs.Rule.Expect
import DeclLint.Proofs.Engine
import DeclLint.Proofs.Config.Extends
import DeclLint.Proofs.Pass.Visit
import DeclLint.Proofs.Pass.Clean
import DeclLint.Proofs.Config.Inheritance
import DeclLint.Proofs.Pass.Reference
import DeclLint.Proofs.Path.Role
import DeclLint.Proofs.Files.Walk
import DeclLint.Proofs.Package.LeftOut
import DeclLint.Proofs.Rule.Session
import DeclLint.Proofs.Report
import DeclLint.Proofs.Pass.Finding
import DeclLint.Proofs.Package.Findings
import DeclLint.Proofs.CommandLine.Outcome
import DeclLint.Proofs.Files.Below
import DeclLint.Proofs.Path.Glob
import DeclLint.Proofs.Path.Spelling
import DeclLint.Proofs.Project.Collect
import DeclLint.Proofs.Project.Exclusion
import DeclLint.Proofs.Project.Inclusion
import DeclLint.Proofs.Project.Distinct
import DeclLint.Proofs.Engine.Recorded
import DeclLint.Proofs.Pass.Order
import DeclLint.Proofs.Config.Variant
import DeclLint.Proofs.Config.OwnOptions
import DeclLint.Proofs.Text.Encoding
import DeclLint.Proofs.Directive
import DeclLint.Proofs.Rule.Account
import DeclLint.Proofs.Fault
import DeclLint.Proofs.Config.Fault
import DeclLint.Proofs.Pass.Fault
import DeclLint.Proofs.Package.Skipped
import DeclLint.Proofs.Text.Position
import DeclLint.Proofs.Directive.First
import DeclLint.Proofs.Text.Pattern
import DeclLint.Proofs.Rule.DeadReference
import DeclLint.Proofs.Rule.Attempt
import DeclLint.Proofs.Compiler.RoundTrip
import DeclLint.Proofs.Compiler.Crash
import DeclLint.Proofs.Path.Resolution
import DeclLint.Proofs.Path.NormalForm
import DeclLint.Proofs.Rule.Matching
import DeclLint.Proofs.Path.Pinned
import DeclLint.Proofs.Path.Dependency
import DeclLint.Proofs.Project.Placed
import DeclLint.Proofs.Pass.Placed
import DeclLint.Proofs.Text.LineEnding
import DeclLint.Proofs.Files.SourceText
import DeclLint.Proofs.Report.Groups
import DeclLint.Proofs.Engine.Sequence
import DeclLint.Proofs.Report.Lossless
import DeclLint.Proofs.Text.Offset
import DeclLint.Proofs.Rule.Expectation
import DeclLint.Proofs.Compiler.Boundary
import DeclLint.Proofs.Project.Fault
import DeclLint.Proofs.Metrics
import DeclLint.Proofs.Pass.Calls
import DeclLint.Proofs.Pass.Counted
