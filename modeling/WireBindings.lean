import WireBindings.Binding.Alias
import WireBindings.Binding.Mapping
import WireBindings.Binding.Names
import WireBindings.Binding.Ordering
import WireBindings.CommandLine
import WireBindings.CommandLine.Arguments
import WireBindings.CommandLine.Help
import WireBindings.CommandLine.Interface
import WireBindings.Compilation
import WireBindings.Compilation.Files
import WireBindings.Decimal.Shortest
import WireBindings.Documentation
import WireBindings.Failure
import WireBindings.FileTree
import WireBindings.Identifier.Case
import WireBindings.Identifier.Constant
import WireBindings.Json.Display
import WireBindings.Json.Reader
import WireBindings.Json.Writer
import WireBindings.Main
import WireBindings.Output
import WireBindings.Plan
import WireBindings.Proofs.Binding.Advisory
import WireBindings.Proofs.Binding.AliasChain
import WireBindings.Proofs.Binding.Census
import WireBindings.Proofs.Binding.Completeness
import WireBindings.Proofs.Binding.CycleSearch
import WireBindings.Proofs.Binding.DependencyOrder
import WireBindings.Proofs.Binding.DomainOrder
import WireBindings.Proofs.Binding.DotFree
import WireBindings.Proofs.Binding.Embedding
import WireBindings.Proofs.Binding.Expansion
import WireBindings.Proofs.Binding.IterationOrder
import WireBindings.Proofs.Binding.Mentions
import WireBindings.Proofs.Binding.Naming
import WireBindings.Proofs.Binding.Ordering
import WireBindings.Proofs.Binding.Places
import WireBindings.Proofs.Binding.Positions
import WireBindings.Proofs.Binding.Protocol
import WireBindings.Proofs.Binding.Registry
import WireBindings.Proofs.Binding.ShapePaths
import WireBindings.Proofs.Binding.Transport
import WireBindings.Proofs.Binding.TypeNames
import WireBindings.Proofs.Binding.Unfolding
import WireBindings.Proofs.Binding.Uniqueness
import WireBindings.Proofs.CommandLine.Arguments
import WireBindings.Proofs.CommandLine.Jobs
import WireBindings.Proofs.CommandLine.StandardInput
import WireBindings.Proofs.Compilation.Advisory
import WireBindings.Proofs.Compilation.Agreement
import WireBindings.Proofs.Compilation.Cancellation
import WireBindings.Proofs.Compilation.Containment
import WireBindings.Proofs.Compilation.DomainOrder
import WireBindings.Proofs.Compilation.Externals
import WireBindings.Proofs.Compilation.JavaNames
import WireBindings.Proofs.Compilation.Merging
import WireBindings.Proofs.Compilation.PythonMethods
import WireBindings.Proofs.Compilation.Runs
import WireBindings.Proofs.Compilation.Stages
import WireBindings.Proofs.Compilation.Units
import WireBindings.Proofs.Documentation
import WireBindings.Proofs.Documentation.Wrapping
import WireBindings.Proofs.FileTree.Containment
import WireBindings.Proofs.FileTree.Descent
import WireBindings.Proofs.FileTree.Directories
import WireBindings.Proofs.FileTree.Lockstep
import WireBindings.Proofs.FileTree.Operations
import WireBindings.Proofs.FileTree.Paths
import WireBindings.Proofs.FileTree.Places
import WireBindings.Proofs.Identifier.Constant
import WireBindings.Proofs.Identifier.Pascal
import WireBindings.Proofs.Identifier.Snake
import WireBindings.Proofs.Identifier.Words
import WireBindings.Proofs.Json.RoundTrip
import WireBindings.Proofs.Json.Tokens
import WireBindings.Proofs.Outcome
import WireBindings.Proofs.Output.Containment
import WireBindings.Proofs.Output.Lockstep
import WireBindings.Proofs.Output.Moving
import WireBindings.Proofs.Output.Refusal
import WireBindings.Proofs.Output.Staging
import WireBindings.Proofs.Output.Writing
import WireBindings.Proofs.Plan.Advisory
import WireBindings.Proofs.Plan.Optionality
import WireBindings.Proofs.Plan.Signatures
import WireBindings.Proofs.Schema.Acceptance
import WireBindings.Proofs.Schema.Advisory
import WireBindings.Proofs.Schema.Complaints
import WireBindings.Proofs.Schema.Entries
import WireBindings.Proofs.Schema.Grammar
import WireBindings.Proofs.Schema.Merge
import WireBindings.Proofs.Schema.References
import WireBindings.Proofs.Schema.Resolution
import WireBindings.Proofs.Schema.RoundTrip
import WireBindings.Proofs.Schema.Shapes
import WireBindings.Proofs.Schema.Written
import WireBindings.Proofs.Target.Comments
import WireBindings.Proofs.Target.Docstrings
import WireBindings.Proofs.Target.Escaping
import WireBindings.Proofs.Target.FieldNames
import WireBindings.Proofs.Target.JavaLiterals
import WireBindings.Proofs.Target.JavaNames
import WireBindings.Proofs.Target.JavaReferences
import WireBindings.Proofs.Target.JavaResolution
import WireBindings.Proofs.Target.JavaWireNames
import WireBindings.Proofs.Target.Literals
import WireBindings.Proofs.Target.Parameters
import WireBindings.Proofs.Target.Printable
import WireBindings.Proofs.Target.PythonLiterals
import WireBindings.Proofs.Target.PythonWireNames
import WireBindings.Proofs.Target.Rendering
import WireBindings.Proofs.Target.UnicodeEscapes
import WireBindings.Proofs.Text
import WireBindings.Schema.File
import WireBindings.Schema.Merge
import WireBindings.Schema.Reader
import WireBindings.Schema.References
import WireBindings.Schema.Writer
import WireBindings.Session
import WireBindings.Target.JavaProject
import WireBindings.Target.PythonProject
import WireBindings.Text.Blank
import WireBindings.Text.Digit
import WireBindings.Text.LowerCase
import WireBindings.Text.Octets
import WireBindings.Text.Quoted
import WireBindings.Trace
