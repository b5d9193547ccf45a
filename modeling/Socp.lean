import Socp.Learning.Loss
import Socp.Operation
import Socp.Program.Residual
import Socp.Program.Run
import Socp.Session.Edit
import Socp.Sparse.Lookup
import Socp.Store.Lemmas
import Socp.Workspace
import Socp.Proofs.Store.Batch
import Socp.Proofs.Program.Coherent
import Socp.Proofs.Program.Effect
import Socp.Proofs.Sparse.Assembly
import Socp.Proofs.Sparse.Lookup
import Socp.Proofs.Sparse.Multiply
import Socp.Proofs.Program.Export
import Socp.Proofs.Program.Loan
import Socp.Proofs.Program.Reachable
import Socp.Proofs.Program.Checkout
import Socp.Proofs.Program.Checkin
import Socp.Proofs.Program.Feasibility
import Socp.Proofs.Scalar.Extended
import Socp.Proofs.Program.Outcome
import Socp.Question
import Socp.Proofs.Program.History
import Socp.Proofs.Program.Verdict
import Socp.Proofs.Program.Breakage
import Socp.Proofs.Program.Solving
import Socp.Proofs.Program.Erasure
import Socp.Proofs.Program.Likeness
import Socp.Proofs.Store.Relocation
import Socp.Proofs.Program.Relocation
import Socp.Proofs.Program.Rebuilding
import Socp.Proofs.Program.Contents
import Socp.Proofs.Workspace.Handles
import Socp.Proofs.Program.Agreement
import Socp.Proofs.Output.Stream
import Socp.Proofs.Program.Noninterference
import Socp.Proofs.Program.Report
import Socp.Proofs.Sparse.Format
import Socp.Proofs.Store.Commutation
import Socp.Proofs.Program.Deletion
import Socp.Proofs.Dense
import Socp.Proofs.Learning.Folding
import Socp.Proofs.Program.Values
import Socp.Proofs.Program.Violation
import Socp.Proofs.Scalar.Exact
import Socp.Proofs.Cone.Membership
import Socp.Proofs.Sparse.Product
import Socp.Proofs.Learning.Sequential
import Socp.Proofs.Program.Coefficients
import Socp.Proofs.Sparse.Entries
import Socp.Proofs.Dense.InnerProduct
import Socp.Proofs.Learning.Loss
