import ProjectLint.Text.Blank
import ProjectLint.Text.Printable
import ProjectLint.Text.DecimalDigit
import ProjectLint.Text.Lowercase
import ProjectLint.Text.Quoted
import ProjectLint.Text.Utf8
import ProjectLint.Number.Shortest
import ProjectLint.Json.Reader
import ProjectLint.Json.Printer
import ProjectLint.Json.Display
import ProjectLint.Json.Integer
import ProjectLint.FileSystem.Resolve
import ProjectLint.FileSystem.Change
import ProjectLint.Ignore.Rule
import ProjectLint.Discovery
import ProjectLint.Ignore.File
import ProjectLint.Engine.Run
import ProjectLint.Manifest.Search
import ProjectLint.Callback.Loop
import ProjectLint.CommandLine.Run
import ProjectLint.Main
import ProjectLint.Text.Utf8.RoundTrip
import ProjectLint.Proofs.Action
import ProjectLint.Proofs.Options.Gather
import ProjectLint.Proofs.Ignore.Matching
import ProjectLint.Proofs.Ignore.BuiltIn
import ProjectLint.Proofs.FileSystem.Follow
import ProjectLint.Proofs.Glob.Reach
import ProjectLint.Proofs.Options.ParserFile
import ProjectLint.Proofs.Lint.BuiltIn
import ProjectLint.Proofs.Glob.Doomed
import ProjectLint.Proofs.Glob.Chain
import ProjectLint.Proofs.Ignore.Descent
import ProjectLint.Proofs.Ignore.Compiled
import ProjectLint.Proofs.Path.Below
import ProjectLint.Proofs.Glob.Repeated
import ProjectLint.Proofs.Glob.SafePruning
import ProjectLint.Proofs.Glob.Wholesale
import ProjectLint.Proofs.Number.Rounding
import ProjectLint.Proofs.Number.Shortest
import ProjectLint.Proofs.Json.Float
import ProjectLint.Proofs.Json.String
import ProjectLint.Proofs.Json.RoundTrip
import ProjectLint.Proofs.Json.Readable
import ProjectLint.Proofs.Json.Members
import ProjectLint.Proofs.Text.Utf8
import ProjectLint.Proofs.Text.Lowercase
import ProjectLint.Proofs.FileSystem.Name
import ProjectLint.Proofs.FileSystem.TextFile
import ProjectLint.Proofs.Json.Document
import ProjectLint.Proofs.FileSystem.Deposit
import ProjectLint.Proofs.Options.Copy
import ProjectLint.Proofs.Options.Precedence
import ProjectLint.Proofs.Options.Calls
import ProjectLint.Proofs.Discovery.Canonical
import ProjectLint.Proofs.Discovery.Distribution
import ProjectLint.Proofs.Discovery.Union
import ProjectLint.Proofs.Discovery.Unreadable
import ProjectLint.Proofs.Lint.Alike
import ProjectLint.Proofs.Lint.Host
import ProjectLint.Proofs.Callback.Delivery
import ProjectLint.Proofs.FileSystem.Canonical
import ProjectLint.Proofs.Manifest.Reading
import ProjectLint.Proofs.Manifest.Key
import ProjectLint.Proofs.Manifest.Block
import ProjectLint.Proofs.Options.Project
import ProjectLint.Proofs.Engine.Run
import ProjectLint.Proofs.Lint.Effects
import ProjectLint.Proofs.CommandLine.Listing
import ProjectLint.Proofs.CommandLine.Status
import ProjectLint.Proofs.Ignore.Inside
import ProjectLint.Proofs.Ignore.Relative
import ProjectLint.Proofs.Ignore.Layout
import ProjectLint.Proofs.Ignore.Literal
import ProjectLint.Proofs.Ignore.Lines
import ProjectLint.Proofs.Lint.IgnoreFile
import ProjectLint.Proofs.Engine.Report
import ProjectLint.Proofs.FileSystem.Frame
import ProjectLint.Proofs.Options.Rewrite
import ProjectLint.Proofs.FileSystem.Existing
import ProjectLint.Proofs.Manifest.Nearest
import ProjectLint.Proofs.Options.Layers
import ProjectLint.Proofs.Path.Distinct
