import MeshExpr.Text.Blank
import MeshExpr.Value.Document
import MeshExpr.Filter.Catalog
import MeshExpr.Collective.Ranks
import MeshExpr.Mesh.Extremum
import MeshExpr.Mesh.Average
import MeshExpr.Mesh.Bins
import MeshExpr.Eval.Compute
import MeshExpr.Graph.Document
import MeshExpr.Engine.Basic
import MeshExpr.Collective.Exchange
import MeshExpr.Proofs.Schedule.Invariant
import MeshExpr.Proofs.Schedule.Order
import MeshExpr.Proofs.Checked
import MeshExpr.Proofs.Planning.Phases
import MeshExpr.Proofs.Planning.Layout
import MeshExpr.Proofs.Planning.WellFormed
import MeshExpr.Proofs.Planning.Image
import MeshExpr.Proofs.Evaluation.Run
import MeshExpr.Proofs.Evaluation.Meaning
import MeshExpr.Proofs.Collective.InStep
import MeshExpr.Proofs.Collective.Agreement
import MeshExpr.Proofs.Collective.Dialogue
import MeshExpr.Proofs.Collective.Rounds
import MeshExpr.Proofs.Evaluation.Alike
import MeshExpr.Proofs.Engine.Ranks
import MeshExpr.Proofs.Number.Order
import MeshExpr.Proofs.Number.Whole
import MeshExpr.Proofs.Mesh.Samples
import MeshExpr.Proofs.Mesh.Reduction
import MeshExpr.Proofs.Mesh.Extremum
import MeshExpr.Proofs.Collective.Partner
import MeshExpr.Proofs.Evaluation.Arguments
import MeshExpr.Proofs.Evaluation.Cause
import MeshExpr.Proofs.History.Growth
import MeshExpr.Proofs.Engine.Atomic
import MeshExpr.Proofs.Engine.Log
import MeshExpr.Proofs.Engine.Isolation
import MeshExpr.Proofs.Mesh.Distribution
import MeshExpr.Proofs.Mesh.Bins
import MeshExpr.Proofs.Evaluation.Group
import MeshExpr.Proofs.Evaluation.Histogram
import MeshExpr.Proofs.Evaluation.Distributed
import MeshExpr.Proofs.Evaluation.Contribution
import MeshExpr.Proofs.Evaluation.Trace
import MeshExpr.Proofs.Schedule.Least
import MeshExpr.Proofs.Planning.Order
import MeshExpr.Proofs.Engine.Halt
import MeshExpr.Proofs.Evaluation.Indices
import MeshExpr.Proofs.Evaluation.Safety
import MeshExpr.Proofs.Mesh.Conformity
import MeshExpr.Proofs.Number.Value
import MeshExpr.Proofs.Number.Finite
import MeshExpr.Proofs.Json.Spelling
import MeshExpr.Proofs.Json.Text
import MeshExpr.Proofs.Json.Decode
import MeshExpr.Proofs.Json.Stable
import MeshExpr.Proofs.Value.Document
import MeshExpr.Proofs.History.Document
import MeshExpr.Proofs.Graph.Document
import MeshExpr.Proofs.Engine.Documents
import MeshExpr.Proofs.Evaluation.Operators
import MeshExpr.Proofs.Filter.Parameters
import MeshExpr.Proofs.Schedule.Depth
import MeshExpr.Proofs.Planning.Depth
import MeshExpr.Proofs.Schedule.Stuck
import MeshExpr.Proofs.Planning.Cycle
import MeshExpr.Proofs.Fault
import MeshExpr.Proofs.Planning.Faults
import MeshExpr.Proofs.Planning.Rejection
import MeshExpr.Proofs.Planning.Review
import MeshExpr.Proofs.Planning.Renaming
import MeshExpr.Proofs.Evaluation.Renaming
import MeshExpr.Proofs.Number.Form
import MeshExpr.Proofs.Number.Sum
import MeshExpr.Proofs.Mesh.Average
import MeshExpr.Proofs.Mesh.OuterBins
import MeshExpr.Proofs.Evaluation.Lattice
import MeshExpr.Proofs.Evaluation.Empty
import MeshExpr.Proofs.Evaluation.OwnRange
import MeshExpr.Proofs.Schedule.Iteration
import MeshExpr.Proofs.Evaluation.Ports
import MeshExpr.Proofs.Evaluation.Reading
