import Socp.Sparse.Basic

/-!
Single entries of a column-stored matrix, found by halving the rows of their column.
-/

namespace Socp

/-- Narrows the window of `size` positions from `base` on to the last one whose key is not above
`key`, as far as the keys are sorted. -/
def bisect (keys : Array Nat) (key base size : Nat) (h : base + size ≤ keys.size) : Nat :=
  if hs : size ≤ 1 then base
  else
    let half := size / 2
    have : base + half < keys.size := by omega
    if key < keys[base + half] then bisect keys key base (size - half) (by omega)
    else bisect keys key (base + half) (size - half) (by omega)
termination_by size

/-- A position that holds the key. -/
def bisectPosition? (keys : Array Nat) (key : Nat) : Option Nat :=
  let i := bisect keys key 0 keys.size (by omega)
  if keys[i]? = some key then some i else none

namespace CscMatrix

variable {α : Type}

/-- The stored value at a place of the matrix, `some none` where nothing is stored. -/
def entry? (A : CscMatrix α) (row col : Nat) : Option (Option α) :=
  if row < A.rows ∧ col < A.cols then do
    let first ← A.colStart[col]?
    let last ← A.colStart[col + 1]?
    let rows ← slice? A.rowIndex first last
    match bisectPosition? rows row with
    | none => return none
    | some i => return some (← A.value[first + i]?)
  else none

end CscMatrix

end Socp
