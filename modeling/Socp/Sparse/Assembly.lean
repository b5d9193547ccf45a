import Socp.Sparse.Basic

/-!
A column-stored matrix built from its rows. One array serves in turn as the number of entries per
column, as the place where each column starts, and as the place where its next entry goes.
-/

namespace Socp

namespace CscMatrix

variable {α : Type}

def countEntry? (A : CscMatrix α) (col : Nat) : Option (CscMatrix α) :=
  if h : col < A.colStart.size then
    some { A with colStart := A.colStart.set col (A.colStart[col] + 1) }
  else none

/-- The sum of the numbers before each one, on top of `start`. -/
def exclusiveSums (start : Nat) : List Nat → List Nat
  | [] => []
  | n :: ns => start :: exclusiveSums (start + n) ns

def countsToStarts (A : CscMatrix α) : CscMatrix α :=
  { A with colStart := (exclusiveSums 0 A.colStart.toList).toArray }

/-- Stores one entry where its column says, and moves the column on. -/
def placeEntry? (A : CscMatrix α) (row col : Nat) (a : α) : Option (CscMatrix α) := do
  let dest ← A.colStart[col]?
  if dest < A.rowIndex.size ∧ dest < A.value.size then
    return { A with
      colStart := A.colStart.setIfInBounds col (dest + 1)
      rowIndex := A.rowIndex.setIfInBounds dest row
      value := A.value.setIfInBounds dest a }
  else none

/-- Each column has moved on to where the next one starts; moves the starts one place back. -/
def shiftStartsBack (A : CscMatrix α) : CscMatrix α :=
  { A with colStart := #[0] ++ A.colStart.pop }

def countRow? (A : CscMatrix α) (row : List (Nat × α)) : Option (CscMatrix α) :=
  row.foldlM (fun A t => A.countEntry? t.1) A

def placeRow? (A : CscMatrix α) (r : Nat) (row : List (Nat × α)) : Option (CscMatrix α) :=
  row.foldlM (fun A t => A.placeEntry? r t.1 t.2) A

/-- The matrix with the given rows of `(column, value)` pairs. -/
def assemble? [Zero α] (cols : Nat) (rows : List (List (Nat × α))) : Option (CscMatrix α) := do
  let room : CscMatrix α := reserve rows.length cols rows.flatten.length
  let blank := { room with colStart := room.colStart.map fun _ => 0 }
  let counted ← rows.foldlM countRow? blank
  let placed ← rows.zipIdx.foldlM (fun A (row, r) => A.placeRow? r row) counted.countsToStarts
  return placed.shiftStartsBack

@[simp] theorem exclusiveSums_length (start : Nat) (ns : List Nat) :
    (exclusiveSums start ns).length = ns.length := by
  induction ns generalizing start with
  | nil => rfl
  | cons n ns ih => simp [exclusiveSums, ih]

end CscMatrix

end Socp
