import Socp.Sparse.Basic

/-!
The test for the column format: lengths that agree, column starts that never go back, and rows
that increase within each column and stay inside the matrix.
-/

namespace Socp

inductive FormatError
  | incompatibleDimension
  | badRowIndex
  | badColumnStart
deriving DecidableEq, Repr

def FormatError.message : FormatError → String
  | .incompatibleDimension => "Matrix dimension fields and/or array lengths are incompatible"
  | .badRowIndex => "Row value exceeds the matrix row dimension or is out of order"
  | .badColumnStart => "Bad column pointer values"

/-- Whether some neighbours in the list are related. -/
def neighboursAny {β : Type} (r : β → β → Bool) : List β → Bool
  | x :: y :: rest => r x y || neighboursAny r (y :: rest)
  | _ => false

namespace CscMatrix

variable {α : Type}

/-- Whether the rows of a column fail to increase. -/
def columnDisordered? (A : CscMatrix α) (col : Nat) : Option Bool := do
  let first ← A.colStart[col]?
  let last ← A.colStart[col + 1]?
  let rows ← slice? A.rowIndex first last
  return neighboursAny (fun r s => s ≤ r) rows.toList

/-- Whether some column from the first of the list on is disordered; later ones are not read. -/
def disordered? (A : CscMatrix α) : List Nat → Option Bool
  | [] => some false
  | col :: rest => do if ← A.columnDisordered? col then return true else A.disordered? rest

/-- The first fault that the test meets, if there is one. -/
def checkFormat? (A : CscMatrix α) : Option (Except FormatError Unit) := do
  if A.rowIndex.size ≠ A.value.size then return .error .incompatibleDimension
  if A.colStart.isEmpty || A.colStart.size - 1 ≠ A.cols then
    return .error .incompatibleDimension
  if (← A.colStart[A.cols]?) ≠ A.rowIndex.size then return .error .incompatibleDimension
  if neighboursAny (fun p q => q < p) A.colStart.toList then return .error .badColumnStart
  if ← A.disordered? (List.range A.cols) then return .error .badRowIndex
  if A.rowIndex.any (A.rows ≤ ·) then return .error .badRowIndex
  return .ok ()

/-- A matrix that passes the test. -/
def WellFormed (A : CscMatrix α) : Prop := A.checkFormat? = some (.ok ())

instance (A : CscMatrix α) : Decidable A.WellFormed :=
  decidable_of_iff (A.checkFormat?.any (·.toBool) = true) <| by
    unfold WellFormed
    rcases A.checkFormat? with _ | (e | u) <;> simp [Except.toBool]

end CscMatrix

end Socp
