import Socp.Session.Matrices

/-!
Changes to lent matrices, the steps that a scripted solver is made of.
-/

namespace Socp

inductive LentVector
  | b
  | c
  | x
  | s
  | w
deriving DecidableEq, Repr

inductive Edit (α : Type)
  | set (f : LentVector) (i : Nat) (v : α)
  | copy (f : LentVector) (values : Array α)
  | copyVector (f source : LentVector)
  | fill (f : LentVector) (v : α)
  | scale (f : LentVector) (v : α)
  | negate (f : LentVector)
  /-- Cuts a vector off or lengthens it with zeros. -/
  | resize (f : LentVector) (n : Nat)
  /-- Overwrites a stored entry of `A`. -/
  | setEntry (i : Nat) (v : α)
  /-- Overwrites `x` with the product of the transpose of `A` and `b`. -/
  | transposeProduct

namespace Matrices

variable {α : Type}

def vector (M : Matrices α) : LentVector → Array α
  | .b => M.b
  | .c => M.c
  | .x => M.x
  | .s => M.s
  | .w => M.w

def setVector (M : Matrices α) (f : LentVector) (v : Array α) : Matrices α :=
  match f with
  | .b => { M with b := v }
  | .c => { M with c := v }
  | .x => { M with x := v }
  | .s => { M with s := v }
  | .w => { M with w := v }

@[simp] theorem vector_setVector (M : Matrices α) (f : LentVector) (v : Array α) :
    (M.setVector f v).vector f = v := by
  cases f <;> rfl

def setAt? (xs : Array α) (i : Nat) (v : α) : Option (Array α) :=
  if h : i < xs.size then some (xs.set i v) else none

def resized [Zero α] (xs : Array α) (n : Nat) : Array α :=
  xs.take n ++ Array.replicate (n - xs.size) 0

@[simp] theorem size_resized [Zero α] (xs : Array α) (n : Nat) : (resized xs n).size = n := by
  simp only [resized, Array.size_append, Array.take_eq_extract, Array.size_extract,
    Array.size_replicate]
  omega

/-- The inner product of a column with `b`, in stored order. -/
def columnProduct? [Zero α] [Add α] [Mul α] (M : Matrices α) (col : Nat) : Option α := do
  (← M.A.column? col).foldlM (fun sum (row, a) => return sum + a * (← M.b[row]?)) 0

/-- Writes the column products into `x` one by one, as far as they exist and fit. -/
def writeProducts [Zero α] [Add α] [Mul α] (M : Matrices α) : List Nat → Bool × Matrices α
  | [] => (true, M)
  | col :: rest =>
    match M.columnProduct? col with
    | none => (false, M)
    | some v =>
      match setAt? M.x col v with
      | none => (false, M)
      | some x => { M with x := x }.writeProducts rest

/-- Overwrites a vector if its new value exists. -/
def trySet (M : Matrices α) (f : LentVector) (v? : Option (Array α)) : Bool × Matrices α :=
  match v? with
  | some v => (true, M.setVector f v)
  | none => (false, M)

/-- Makes a change; the first component tells whether it could be carried through. -/
def edit [Zero α] [Neg α] [Add α] [Mul α] (M : Matrices α) : Edit α → Bool × Matrices α
  | .set f i v => M.trySet f (setAt? (M.vector f) i v)
  | .copy f values => M.trySet f (if (M.vector f).size = values.size then some values else none)
  | .copyVector f source =>
    let values := M.vector source
    M.trySet f (if (M.vector f).size = values.size then some values else none)
  | .fill f v => (true, M.setVector f ((M.vector f).map fun _ => v))
  | .scale f v => (true, M.setVector f ((M.vector f).map (· * v)))
  | .negate f => (true, M.setVector f ((M.vector f).map (- ·)))
  | .resize f n => (true, M.setVector f (resized (M.vector f) n))
  | .setEntry i v =>
    match setAt? M.A.value i v with
    | some value => (true, { M with A := { M.A with value := value } })
    | none => (false, M)
  | .transposeProduct => M.writeProducts (List.range M.A.cols)

end Matrices

end Socp
