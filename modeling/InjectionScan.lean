import InjectionScan.Main
import InjectionScan.Proofs.Syntax.Preorder
import InjectionScan.Proofs.Syntax.Comments
import InjectionScan.Proofs.Taint.Derivation
import InjectionScan.Proofs.Taint.Exactness
import InjectionScan.Proofs.Taint.Worklist
import InjectionScan.Proofs.Taint.Comments
import InjectionScan.Proofs.Registry.Dependence
import InjectionScan.Proofs.Registry.Numbering
import InjectionScan.Proofs.Registry.Isolation
import InjectionScan.Proofs.Registry.Origin
import InjectionScan.Proofs.Registry.RuleSettings
import InjectionScan.Proofs.Suppression.Directive
import InjectionScan.Proofs.Naming.Spelling
import InjectionScan.Proofs.Naming.Utf8
import InjectionScan.Proofs.FileSystem.Replacement
import InjectionScan.Proofs.Suppression.Inline
import InjectionScan.Proofs.Suppression.Locality
import InjectionScan.Proofs.Suppression.Tokens
import InjectionScan.Proofs.Command.Conservation
import InjectionScan.Proofs.Expectation.Matching
import InjectionScan.Proofs.Command.Fixtures
import InjectionScan.Proofs.Dictionary.Lookup
import InjectionScan.Proofs.Sarif.References
import InjectionScan.Proofs.Text.ByteOrder
import InjectionScan.Proofs.Sarif.Metadata
import InjectionScan.Proofs.Text.Runs
import InjectionScan.Proofs.Document.Decoding
import InjectionScan.Proofs.Json.Reading
import InjectionScan.Proofs.JsonReport.Faithfulness
import InjectionScan.Proofs.Toml.Strings
import InjectionScan.Proofs.Toml.Lines
import InjectionScan.Proofs.Dictionary.Order
import InjectionScan.Proofs.FileSystem.Writing
import InjectionScan.Proofs.Codec.Config
import InjectionScan.Proofs.Config.RoundTrip
import InjectionScan.Proofs.Ignore.DirectoryRule
import InjectionScan.Proofs.Path.Order
import InjectionScan.Proofs.Discovery.Walk
import InjectionScan.Proofs.Discovery.DirectoryPattern
import InjectionScan.Proofs.Discovery.Extensions
import InjectionScan.Proofs.Text.Cutting
import InjectionScan.Proofs.Text.Pattern
import InjectionScan.Proofs.Suppression.Grammar
import InjectionScan.Proofs.Suppression.CommentClose
import InjectionScan.Proofs.Expectation.Grammar
import InjectionScan.Proofs.Path.Relative
import InjectionScan.Proofs.Suppression.PathOrder
import InjectionScan.Proofs.Syntax.Reading
import InjectionScan.Proofs.Taint.Bindings
import InjectionScan.Proofs.Taint.Transfer
import InjectionScan.Proofs.Taint.FlowInsensitivity
import InjectionScan.Proofs.Taint.NewNames
import InjectionScan.Proofs.Discovery.Patterns
import InjectionScan.Proofs.Path.Redundancy
import InjectionScan.Proofs.Path.Parent
import InjectionScan.Proofs.Config.Nearest
import InjectionScan.Proofs.Discovery.Fixtures
import InjectionScan.Proofs.Sarif.Locations
import InjectionScan.Proofs.Terminal.Colour
import InjectionScan.Proofs.Codec.Canonical
import InjectionScan.Proofs.Config.Partial
import InjectionScan.Proofs.Syntax.Nesting
import InjectionScan.Proofs.Script.Lexeme
import InjectionScan.Proofs.Script.Stack
import InjectionScan.Proofs.Script.Pattern
import InjectionScan.Proofs.Script.Rules
import InjectionScan.Proofs.Script.Parse
import InjectionScan.Proofs.Registry.DocumentOrder
