import TypedLowering.Lowering.Compiler
import TypedLowering.Source.Builder
import TypedLowering.Source.Interner
import TypedLowering.Source.TypePool
import TypedLowering.Ssa.Printer
import TypedLowering.Proofs.Ssa.Availability
import TypedLowering.Proofs.Ssa.Growth
import TypedLowering.Proofs.Lowering.Spec
import TypedLowering.Proofs.Flow.Emission
import TypedLowering.Proofs.Flow.Branch
import TypedLowering.Proofs.Flow.Operator
import TypedLowering.Proofs.Flow.Call
import TypedLowering.Proofs.Flow.Expression
import TypedLowering.Proofs.Flow.Statement
import TypedLowering.Proofs.Flow.Validity
import TypedLowering.Proofs.Flow.EvaluationOrder
import TypedLowering.Proofs.Semantics.Evaluation
import TypedLowering.Proofs.Simulation.Control
import TypedLowering.Proofs.Simulation.Operator
import TypedLowering.Proofs.Simulation.Expression
import TypedLowering.Proofs.Simulation.Statement
import TypedLowering.Proofs.Simulation.Variable
import TypedLowering.Proofs.Simulation.Preservation
import TypedLowering.Proofs.Source.Arrangement
import TypedLowering.Proofs.Source.Pool
import TypedLowering.Proofs.Lowering.Outcome
import TypedLowering.Proofs.Lowering.Silence
import TypedLowering.Proofs.Lowering.Generators
import TypedLowering.Proofs.Lowering.Persistence
import TypedLowering.Proofs.Lowering.Steadiness
import TypedLowering.Proofs.Ssa.Completion
import TypedLowering.Proofs.Flow.Completion
import TypedLowering.Proofs.Lowering.History
import TypedLowering.Proofs.Lowering.Mangling
import TypedLowering.Proofs.Lowering.Journal
import TypedLowering.Proofs.Lowering.Arguments
import TypedLowering.Proofs.Lowering.Parameters
import TypedLowering.Proofs.Ssa.Typing
import TypedLowering.Proofs.Typing.Soundness
import TypedLowering.Proofs.Lowering.Ledger
import TypedLowering.Proofs.Lowering.Bound
import TypedLowering.Proofs.Lowering.Termination
import TypedLowering.Proofs.Lowering.Depth
import TypedLowering.Proofs.Lowering.Symbols
import TypedLowering.Proofs.Lowering.Coverage
import TypedLowering.Proofs.Options.Indifference
import TypedLowering.Proofs.Order.Recording
import TypedLowering.Proofs.Order.Tandem
import TypedLowering.Proofs.Order.Following
import TypedLowering.Proofs.Order.Reordered
import TypedLowering.Proofs.Order.Permutation
import TypedLowering.Proofs.Order.Alias
import TypedLowering.Proofs.Generic.Copy
import TypedLowering.Proofs.Generic.Lockstep
import TypedLowering.Proofs.Generic.Faithful
import TypedLowering.Proofs.Lowering.Reachability
import TypedLowering.Proofs.Source.Substitution
import TypedLowering.Proofs.Lowering.Conversion
import TypedLowering.Proofs.Options.Literal
import TypedLowering.Proofs.Simulation.Equality
import TypedLowering.Proofs.Lowering.IntegerLiteral
import TypedLowering.Proofs.Diagnostic.Queue
import TypedLowering.Proofs.Ssa.Layout
import TypedLowering.Proofs.Lowering.ClassLayout
import TypedLowering.Proofs.Lowering.CallType
import TypedLowering.Proofs.Ssa.Construction
import TypedLowering.Proofs.Source.Notation
