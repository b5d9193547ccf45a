import Socp.Sparse.Basic

/-!
The product of a column-stored matrix and a vector, added to a multiple of a second vector. Each
stored entry is added where its row says, column after column.
-/

namespace Socp

namespace CscMatrix

variable {α : Type}

/-- `b` times the vector; the factors 0, 1 and -1 are taken without multiplying. -/
def scaleTarget [Zero α] [One α] [Neg α] [Mul α] [BEq α] (b : α) (y : Array α) : Array α :=
  if b == 0 then y.map fun _ => 0
  else if b == 1 then y
  else if b == -1 then y.map (- ·)
  else y.map (· * b)

def addAt? [Add α] (y : Array α) (row : Nat) (d : α) : Option (Array α) :=
  if h : row < y.size then some (y.set row (y[row] + d)) else none

/-- The stored pairs of a column, none if its range is empty or runs backwards. -/
def stored? (A : CscMatrix α) (col : Nat) : Option (List (Nat × α)) := do
  let first ← A.colStart[col]?
  let last ← A.colStart[col + 1]?
  if last ≤ first then return [] else A.column? col

/-- Adds `term a x[j]` to entry `i` of `y` for every stored `a` at `(i, j)`. -/
def scatter? [Add α] (A : CscMatrix α) (term : α → α → α) (x y : Array α) : Option (Array α) :=
  x.toList.zipIdx.foldlM (fun y (xj, j) => do
    (← A.stored? j).foldlM (fun y (row, a) => addAt? y row (term a xj)) y) y

/-- `a * A * x + b * y`. -/
def gemv? [Zero α] [One α] [Neg α] [Add α] [Mul α] [BEq α] (A : CscMatrix α) (y x : Array α)
    (a b : α) : Option (Array α) :=
  let y := scaleTarget b y
  if a == 0 then some y
  else if A.nnz? = some A.value.size ∧ x.size = A.cols ∧ y.size = A.rows then
    A.scatter? (if a == 1 then fun v xj => v * xj else fun v xj => a * v * xj) x y
  else none

@[simp] theorem scaleTarget_size [Zero α] [One α] [Neg α] [Mul α] [BEq α] (b : α)
    (y : Array α) : (scaleTarget b y).size = y.size := by
  unfold scaleTarget
  split
  · simp
  · split
    · rfl
    · split <;> simp

end CscMatrix

end Socp
