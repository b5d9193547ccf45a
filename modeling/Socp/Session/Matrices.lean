import Socp.Dense
import Socp.Sparse.Multiply

/-!
The arrays that are lent to a solver: one row per constraint, one column per variable. A solver may
change any of them, their lengths included.
-/

namespace Socp

structure Matrices (α : Type) where
  /-- The coefficients of the constraints. -/
  A : CscMatrix α
  /-- Right-hand sides. -/
  b : Array α
  /-- Objective coefficients. -/
  c : Array α
  /-- Primal values. -/
  x : Array α
  /-- Dual values. -/
  s : Array α
  /-- Constraint multipliers. -/
  w : Array α
deriving BEq

namespace Matrices

variable {α : Type}

/-- Rows and columns. -/
def size (M : Matrices α) : Nat × Nat := (M.A.rows, M.A.cols)

/-- `A x - b`. -/
def residual? [Zero α] [One α] [Neg α] [Add α] [Mul α] [BEq α] (M : Matrices α) :
    Option (Array α) :=
  M.A.gemv? M.b M.x 1 (-1)

end Matrices

end Socp
