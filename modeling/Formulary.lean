import Formulary.Arithmetic
import Formulary.Config
import Formulary.Symbols
import Formulary.Node.Printer
import Formulary.Node.Operand
import Formulary.Decimal.Layout
import Formulary.Decimal.Literal
import Formulary.Decimal.Fixed
import Formulary.Branches
import Formulary.Expression.Printer
import Formulary.Approximation
import Formulary.Expression.Parser
import Formulary.ResultSet
import Formulary.Registry
import Formulary.Node.Limit
import Formulary.Node.Signature
import Formulary.OperatorTable
import Formulary.Compilation
import Formulary.Json.Reader
import Formulary.Node.Json
import Formulary.Ron.Reader
import Formulary.Config.Ron
import Formulary.Source
import Formulary.Collector
import Formulary.Main
import Formulary.Proofs.Formula
import Formulary.Proofs.Grammar
import Formulary.Proofs.Passing
import Formulary.Proofs.Readings
import Formulary.Proofs.Rendering
import Formulary.Proofs.Runs
import Formulary.Proofs.Scripts
import Formulary.Proofs.Visits
import Formulary.Proofs.OpenRuns
import Formulary.Proofs.Insertion
import Formulary.Proofs.Grouping
import Formulary.Proofs.Externals
import Formulary.Proofs.Naming
import Formulary.Proofs.Watch
import Formulary.Proofs.Choices
import Formulary.Proofs.Operands
import Formulary.Proofs.Histories
import Formulary.Proofs.Cardinality
import Formulary.Proofs.Links
import Formulary.Proofs.Calls
import Formulary.Proofs.Delimiters
import Formulary.Proofs.Nesting
import Formulary.Proofs.Arity
import Formulary.Proofs.Enclosure
import Formulary.Proofs.Places
import Formulary.Proofs.Leaves
import Formulary.Proofs.Listing
import Formulary.Proofs.Unfolding.Nodes
import Formulary.Proofs.Unfolding.Elsewhere
import Formulary.Proofs.Unfolding.Walk
import Formulary.Proofs.Unfolding.References
import Formulary.Proofs.Unfolding.Trees
import Formulary.Proofs.Unfolding.Values
import Formulary.Proofs.Unfolding.Definitions
import Formulary.Proofs.Arguments
import Formulary.Proofs.Registration
import Formulary.Proofs.Inertness
import Formulary.Proofs.Reports
import Formulary.Proofs.Paraphrase.Names
import Formulary.Proofs.Paraphrase.Nodes
import Formulary.Proofs.Paraphrase.Operands
import Formulary.Proofs.Paraphrase.Readings
import Formulary.Proofs.Paraphrase.Walk
import Formulary.Proofs.Paraphrase.Compilation
import Formulary.Proofs.Paraphrase.Evaluation
import Formulary.Proofs.Spellings
import Formulary.Proofs.Renaming
import Formulary.Proofs.Neighbours
import Formulary.Proofs.Nested
import Formulary.Proofs.Scopes
import Formulary.Proofs.Floats
import Formulary.Proofs.ResultSets
import Formulary.Proofs.Shadowing
import Formulary.Proofs.Relocation
import Formulary.Proofs.Rooms
import Formulary.Proofs.Composition
import Formulary.Proofs.Extents
import Formulary.Proofs.Signatures
import Formulary.Proofs.Bars
import Formulary.Proofs.Exact
import Formulary.Proofs.Riemann
import Formulary.Proofs.Innermost
import Formulary.Proofs.JsonText
import Formulary.Proofs.RoundTrip
