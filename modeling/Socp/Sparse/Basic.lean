/-!
Matrices stored column by column. The fields are plain arrays that a caller may fill with
anything, so an operation that relies on how they fit together answers `none` where they do not.
-/

namespace Socp

/-- A matrix whose stored entries of column `j` lie at the positions from `colStart[j]` up to
`colStart[j + 1]` of `rowIndex` and `value`. -/
structure CscMatrix (α : Type) where
  rows : Nat
  cols : Nat
  colStart : Array Nat
  rowIndex : Array Nat
  value : Array α
deriving BEq

namespace CscMatrix

variable {α : Type}

/-- A matrix from its arrays, refused if their lengths do not agree. -/
def new? (rows cols : Nat) (colStart rowIndex : Array Nat) (value : Array α) :
    Option (CscMatrix α) :=
  if rowIndex.size = value.size ∧ colStart.size = cols + 1 ∧ colStart[cols]? = some rowIndex.size
  then some ⟨rows, cols, colStart, rowIndex, value⟩
  else none

/-- Room for `count` entries, all of them held by the last column. -/
def reserve [Zero α] (rows cols count : Nat) : CscMatrix α where
  rows := rows
  cols := cols
  colStart := (Array.replicate cols 0).push count
  rowIndex := Array.replicate count 0
  value := Array.replicate count 0

/-- The number of stored entries, as the last column start tells it. -/
def nnz? (A : CscMatrix α) : Option Nat := A.colStart[A.cols]?

/-- The positions from `first` up to `last`, if there are that many. -/
def slice? {β : Type} (xs : Array β) (first last : Nat) : Option (Array β) :=
  if first ≤ last ∧ last ≤ xs.size then some (xs.extract first last) else none

/-- The stored `(row, value)` pairs of a column. -/
def column? (A : CscMatrix α) (col : Nat) : Option (List (Nat × α)) := do
  let first ← A.colStart[col]?
  let last ← A.colStart[col + 1]?
  let rows ← slice? A.rowIndex first last
  let values ← slice? A.value first last
  return rows.toList.zip values.toList

@[simp] theorem reserve_colStart_size [Zero α] (rows cols count : Nat) :
    (reserve rows cols count : CscMatrix α).colStart.size = cols + 1 := by
  simp [reserve]

theorem new?_reserve [Zero α] (rows cols count : Nat) :
    let A : CscMatrix α := reserve rows cols count
    new? rows cols A.colStart A.rowIndex A.value = some A := by
  simp [new?, reserve, Array.getElem_push]

end CscMatrix

end Socp
