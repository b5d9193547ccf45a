import Socp.Output.Summary
import Socp.Program.Query
import Socp.Sparse.Assembly
import Socp.Sparse.Format

/-!
Lending a program to a solver and taking it back. Rows are the live constraints in the order of
their creation. Columns are the live variables, taken cone by cone.
-/

namespace Socp

namespace Program

variable {α : Type}

def columnOrder (p : Program α) : List VariableId := p.cones.values.flatMap Cone.vars

def rowOrder (p : Program α) : List ConstraintId := p.constraints.handles

/-- The terms of a constraint with columns in place of variables. -/
def rowEntries? (columns : List VariableId) (con : Constraint α) : Option (List (Nat × α)) :=
  con.terms.toList.mapM fun (v, a) => (columns.idxOf? v).map (·, a)

/-- The arrays for a given order of columns and rows. -/
def toMatrices [Zero α] (p : Program α) (columns : List VariableId) (rows : List ConstraintId) :
    Except Fault (Matrices α) := do
  let vars ← Fault.ofRefusal (columns.mapM p.vars.find)
  let cons ← Fault.ofRefusal (rows.mapM p.constraints.find)
  let entries ← Fault.ofOption (cons.mapM (rowEntries? columns))
  let A ← Fault.ofOption (CscMatrix.assemble? columns.length entries)
  if ¬A.WellFormed then throw .aborted
  return {
    A := A
    b := (cons.map (·.rhs)).toArray
    c := (vars.map (·.objective)).toArray
    x := (vars.map (·.primal)).toArray
    s := (vars.map (·.dual)).toArray
    w := (cons.map (·.dual)).toArray }

def newSession [Zero α] (p : Program α) : Except Fault (Session α) := do
  let matrices ← p.toMatrices p.columnOrder p.rowOrder
  return ⟨matrices, p.columnOrder, p.rowOrder⟩

def activeSession (p : Program α) : Except ProgramError (Session α) :=
  match p.session with
  | some session => .ok session
  | none => .error .notCheckedOut

def lentMatrices (p : Program α) : Except ProgramError (Matrices α) :=
  (·.matrices) <$> p.activeSession

/-- The column of a variable in the lent matrices. -/
def columnOf (p : Program α) (v : VariableId) : Except ProgramError Nat := do
  let session ← p.activeSession
  let _ ← p.vars.find v
  match session.columnOf? v with
  | some j => return j
  | none => throw (.staleHandle .var)

def rowOf (p : Program α) (con : ConstraintId) : Except ProgramError Nat := do
  let session ← p.activeSession
  let _ ← p.constraints.find con
  match session.rowOf? con with
  | some i => return i
  | none => throw (.staleHandle .constraint)

def checkoutBlock [Zero α] [BEq α] (p : Program α) : Except Fault (List Text) :=
  match p.session with
  | none => return []
  | some ⟨M, _, _⟩ => do
    let entries ← Fault.ofOption M.A.nnz?
    return Summary.checkout {
      vars := M.A.cols
      constraints := M.A.rows
      matrixEntries := entries
      objectiveEntries := Dense.cardinality M.c.toList
      cones := ConeKind.all.map fun kind => (kind, p.kindCount kind) }

end Program

namespace ProgramM

variable {α : Type}

def checkOut [Zero α] [BEq α] : ProgramM α Unit := do
  requireIdle
  let session ← lift (← get).newSession
  modify fun p => { p with session := some session }
  report Program.checkoutBlock

/-- Takes the matrices back and stores the values that came with them. -/
def checkIn : ProgramM α Unit := do
  let session ← ask Program.activeSession
  if ¬session.Returnable then abort
  modify fun p => { p with session := none }
  let M := session.matrices
  (session.columns.zip (M.x.toList.zip M.s.toList)).forM fun (v, x, s) =>
    updateVariable v ({ · with primal := x, dual := s })
  (session.rows.zip M.w.toList).forM fun (con, w) =>
    updateConstraint con ({ · with dual := w })
  report fun _ => return Summary.checkin session.columns.length session.rows.length

/-- Lets the borrower change the lent matrices at will. -/
def editLent {β : Type} (f : Matrices α → β × Matrices α) : ProgramM α β := do
  let session ← ask Program.activeSession
  let (answer, M) := f session.matrices
  modify fun p => { p with session := some { session with matrices := M } }
  return answer

/-- Lends the matrices, calls for a solver and takes them back, whatever the solver reports. A
solver that breaks off leaves them lent, as it had changed them by then. Where the call is kept
account of, `lift` says how a program is run there. -/
def solveThrough [Zero α] [BEq α] {τ : Type} {m : Type → Type} [Monad m]
    (lift : ∀ {β : Type}, ProgramM α β → m β) (call : m (Option τ)) : m τ := do
  lift checkOut
  match ← call with
  | none => lift abort
  | some status =>
    lift checkIn
    return status

def solveWith [Zero α] [BEq α] {τ : Type} (solver : Matrices α → Option τ × Matrices α) :
    ProgramM α τ :=
  solveThrough (fun x => x) (editLent solver)

end ProgramM

end Socp
