import Socp.Handle
import Socp.Session.Matrices

/-!
A loan of the matrices: the arrays, and which variable each column and which constraint each row
stands for.
-/

namespace Socp

structure Session (α : Type) where
  matrices : Matrices α
  columns : List VariableId
  rows : List ConstraintId

namespace Session

variable {α : Type}

def columnOf? (session : Session α) (v : VariableId) : Option Nat := session.columns.idxOf? v

def rowOf? (session : Session α) (con : ConstraintId) : Option Nat := session.rows.idxOf? con

/-- Whether the vectors that are read back still have their lengths. -/
def Returnable (session : Session α) : Prop :=
  session.matrices.x.size = session.columns.length ∧
    session.matrices.s.size = session.columns.length ∧
    session.matrices.w.size = session.rows.length

instance (session : Session α) : Decidable session.Returnable := by
  unfold Returnable
  infer_instance

end Session

end Socp
