import FiniteStructures.Bounded
import FiniteStructures.CommandLine
import FiniteStructures.Contraction.Basic
import FiniteStructures.Contraction.Semiring
import FiniteStructures.Domain
import FiniteStructures.Enumeration.Catalog
import FiniteStructures.Enumeration.Engine
import FiniteStructures.Enumeration.Problem
import FiniteStructures.Enumeration.Settings
import FiniteStructures.Enumeration.Solver
import FiniteStructures.Fault
import FiniteStructures.Index
import FiniteStructures.Main
import FiniteStructures.Operation.Basic
import FiniteStructures.Operation.Identities
import FiniteStructures.Operation.Polymorphism
import FiniteStructures.Operation.Superposition
import FiniteStructures.Permutation
import FiniteStructures.Poset
import FiniteStructures.Process.Arithmetic
import FiniteStructures.Process.Bytes
import FiniteStructures.Process.Cat
import FiniteStructures.Process.Files
import FiniteStructures.Process.Format
import FiniteStructures.Process.Fraction
import FiniteStructures.Process.Numeral
import FiniteStructures.Process.Pattern
import FiniteStructures.Process.Permissions
import FiniteStructures.Process.Program
import FiniteStructures.Process.Script.Alias
import FiniteStructures.Process.Script.Basic
import FiniteStructures.Process.Script.Grammar
import FiniteStructures.Process.Script.Reader
import FiniteStructures.Process.Shell.Alias
import FiniteStructures.Process.Shell.Background
import FiniteStructures.Process.Shell.Basic
import FiniteStructures.Process.Shell.Condition
import FiniteStructures.Process.Shell.Connection
import FiniteStructures.Process.Shell.Expansion
import FiniteStructures.Process.Shell.Input
import FiniteStructures.Process.Shell.Job
import FiniteStructures.Process.Shell.Limit
import FiniteStructures.Process.Shell.Lookup
import FiniteStructures.Process.Shell.Option
import FiniteStructures.Process.Shell.Output
import FiniteStructures.Process.Shell.Own
import FiniteStructures.Process.Shell.Part
import FiniteStructures.Process.Shell.Run
import FiniteStructures.Process.Shell.Setting
import FiniteStructures.Process.Shell.Signal
import FiniteStructures.Process.Shell.Simple
import FiniteStructures.Process.Shell.Start
import FiniteStructures.Proofs.Contraction.Bindings
import FiniteStructures.Proofs.Contraction.Collapse
import FiniteStructures.Proofs.Contraction.Einsum
import FiniteStructures.Proofs.Contraction.Entries
import FiniteStructures.Proofs.Contraction.Needs
import FiniteStructures.Proofs.Contraction.Session
import FiniteStructures.Proofs.Contraction.Steps
import FiniteStructures.Proofs.Contraction.Sums
import FiniteStructures.Proofs.Contraction.Unfailing
import FiniteStructures.Proofs.Contraction.Witnesses
import FiniteStructures.Proofs.Digits
import FiniteStructures.Proofs.Effects
import FiniteStructures.Proofs.Enumeration.Complete
import FiniteStructures.Proofs.Enumeration.Counting
import FiniteStructures.Proofs.Enumeration.Loading
import FiniteStructures.Proofs.Enumeration.Preparation
import FiniteStructures.Proofs.Enumeration.Prepared
import FiniteStructures.Proofs.Enumeration.Search
import FiniteStructures.Proofs.Enumeration.Semilattices
import FiniteStructures.Proofs.Enumeration.Solutions
import FiniteStructures.Proofs.Operation.Constructed
import FiniteStructures.Proofs.Operation.Graphs
import FiniteStructures.Proofs.Operation.Preservation
import FiniteStructures.Proofs.Operation.Ranges
import FiniteStructures.Proofs.Operation.Superposition
import FiniteStructures.Proofs.Operation.Values
import FiniteStructures.Proofs.Parametricity.Calls
import FiniteStructures.Proofs.Parametricity.Compiled
import FiniteStructures.Proofs.Parametricity.Constants
import FiniteStructures.Proofs.Parametricity.Contractions
import FiniteStructures.Proofs.Parametricity.Domains
import FiniteStructures.Proofs.Parametricity.Methods
import FiniteStructures.Proofs.Parametricity.Operations
import FiniteStructures.Proofs.Parametricity.Predicates
import FiniteStructures.Proofs.Parametricity.Relations
import FiniteStructures.Proofs.Parametricity.Shapes
import FiniteStructures.Proofs.Parametricity.StraightLine
import FiniteStructures.Proofs.Parametricity.Tensors
import FiniteStructures.Proofs.Parametricity.Tracking
import FiniteStructures.Proofs.Permutation.Inversions
import FiniteStructures.Proofs.Permutation.Parity
import FiniteStructures.Proofs.Permutation.Representations
import FiniteStructures.Proofs.Relation.Binary
import FiniteStructures.Proofs.Relation.Closure
import FiniteStructures.Proofs.Relation.Covers
import FiniteStructures.Proofs.Relation.Essential
import FiniteStructures.Proofs.Relation.Joins
import FiniteStructures.Proofs.Relation.Listing
import FiniteStructures.Proofs.Relation.Orders
import FiniteStructures.Proofs.Relation.Predicates
import FiniteStructures.Proofs.Relation.Products
import FiniteStructures.Proofs.Relation.Projections
import FiniteStructures.Proofs.Relation.Symmetry
import FiniteStructures.Proofs.Relation.WellFormed
import FiniteStructures.Proofs.Sat.Answers
import FiniteStructures.Proofs.Sat.Building
import FiniteStructures.Proofs.Sat.Connectives
import FiniteStructures.Proofs.Sat.Dimacs
import FiniteStructures.Proofs.Sat.Effects
import FiniteStructures.Proofs.Sat.Faults
import FiniteStructures.Proofs.Sat.Gates
import FiniteStructures.Proofs.Sat.Growth
import FiniteStructures.Proofs.Sat.Inventory
import FiniteStructures.Proofs.Sat.Layouts
import FiniteStructures.Proofs.Sat.Loading
import FiniteStructures.Proofs.Sat.Occurrences
import FiniteStructures.Proofs.Sat.Padding
import FiniteStructures.Proofs.Sat.Programs
import FiniteStructures.Proofs.Sat.Reachable
import FiniteStructures.Proofs.Sat.Refusals
import FiniteStructures.Proofs.Sat.Sharing
import FiniteStructures.Proofs.Sat.Sizes
import FiniteStructures.Proofs.Sat.Specs
import FiniteStructures.Proofs.Sat.Truth
import FiniteStructures.Proofs.Tensor.Bounds
import FiniteStructures.Proofs.Tensor.Cells
import FiniteStructures.Proofs.Tensor.Folding
import FiniteStructures.Proofs.Tensor.Indices
import FiniteStructures.Proofs.Tensor.Moves
import FiniteStructures.Proofs.Tensor.Odometers
import FiniteStructures.Proofs.Tensor.Permuting
import FiniteStructures.Proofs.Tensor.Reshaping
import FiniteStructures.Proofs.Tensor.Room
import FiniteStructures.Proofs.Tensor.Stacking
import FiniteStructures.Proofs.Tensor.Tables
import FiniteStructures.Proofs.Tensor.Traverse
import FiniteStructures.Proofs.Text.Numerals
import FiniteStructures.Relation.Basic
import FiniteStructures.Relation.Closure
import FiniteStructures.Relation.Coordinates
import FiniteStructures.Relation.Predicates
import FiniteStructures.Sat.Answer
import FiniteStructures.Sat.Backend
import FiniteStructures.Sat.External
import FiniteStructures.Sat.InProcess
import FiniteStructures.Sat.Instance
import FiniteStructures.Sat.Literal
import FiniteStructures.Sat.Search.Agenda
import FiniteStructures.Sat.Search.Conflict
import FiniteStructures.Sat.Search.Run
import FiniteStructures.Sat.Search.Trail
import FiniteStructures.Sat.Search.Watch
import FiniteStructures.Sat.Spec
import FiniteStructures.Tensor.Axes
import FiniteStructures.Tensor.Basic
import FiniteStructures.Tensor.Stack
import FiniteStructures.Text.Blank
import FiniteStructures.Text.Numeral
import FiniteStructures.Text.Utf8
