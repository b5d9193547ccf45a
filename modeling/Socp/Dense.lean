import Socp.Scalar

/-!
Dense vectors as lists. Sums are taken pairwise: a long stretch of positions is split in the middle
and the halves are summed on their own, which keeps rounding errors small.
-/

namespace Socp.Dense

variable {α : Type}

/-- Stretches shorter than this are summed from left to right. -/
def pairwiseBase : Nat := 16

/-- The sum of the `count` entries from position `first` on. -/
def stretchSum [Zero α] [Add α] (xs : List α) (first count : Nat) : α :=
  if count < pairwiseBase then ((xs.drop first).take count).foldl (· + ·) 0
  else
    stretchSum xs first (count / 2) + stretchSum xs (first + count / 2) (count - count / 2)
termination_by count
decreasing_by all_goals simp only [pairwiseBase] at *; omega

def pairwiseSum [Zero α] [Add α] (xs : List α) : α := stretchSum xs 0 xs.length

/-- The inner product, defined for vectors of one length. -/
def dot? [Zero α] [Add α] [Mul α] (xs ys : List α) : Option α :=
  if xs.length = ys.length then some (pairwiseSum (List.zipWith (· * ·) xs ys)) else none

def sumSq [Zero α] [Add α] [Mul α] (xs : List α) : α := pairwiseSum (xs.map fun x => x * x)

def norm [Scalar α] (xs : List α) : α := Scalar.sqrt (sumSq xs)

/-- The largest absolute value; the first unordered one wins over any other. -/
def normInf [Scalar α] (xs : List α) : α :=
  let sizes := xs.map Scalar.abs
  (sizes.find? Scalar.isNaN).getD (sizes.foldl (fun m v => if m < v then v else m) 0)

/-- The number of entries that are not zero. -/
def cardinality [Zero α] [BEq α] (xs : List α) : Nat := xs.countP (· != 0)

def scale [Mul α] (xs : List α) (c : α) : List α := xs.map (· * c)

def negate [Neg α] (xs : List α) : List α := xs.map (- ·)

def fill (xs : List α) (c : α) : List α := xs.map fun _ => c

def copy? (xs ys : List α) : Option (List α) :=
  if xs.length = ys.length then some ys else none

/-- A stretch is its first half and the rest of it. -/
theorem take_drop_halves (xs : List α) (first count : Nat) :
    (xs.drop first).take (count / 2) ++ (xs.drop (first + count / 2)).take (count - count / 2) =
      (xs.drop first).take count := by
  rw [← List.drop_drop, ← List.take_add, Nat.add_sub_cancel' (Nat.div_le_self count 2)]

theorem dot?_self [Zero α] [Add α] [Mul α] (xs : List α) : dot? xs xs = some (sumSq xs) := by
  simp [dot?, sumSq, List.zipWith_self]

@[simp] theorem scale_length [Mul α] (xs : List α) (c : α) : (scale xs c).length = xs.length := by
  simp [scale]

@[simp] theorem negate_length [Neg α] (xs : List α) : (negate xs).length = xs.length := by
  simp [negate]

@[simp] theorem fill_length (xs : List α) (c : α) : (fill xs c).length = xs.length := by
  simp [fill]

end Socp.Dense
