import Mathlib.Algebra.BigOperators.Fin
import Mathlib.Algebra.Ring.Int.Defs
import Mathlib.Data.Matrix.Mul
import Mathlib.Tactic.Module
import Socp.Proofs.Sparse.Entries
import Socp.Proofs.Sparse.Multiply

/-!
The product of a matrix and a vector over exact numbers. A matrix that passes the test for its
format has columns with at most one entry for each row, so adding the stored entries one after the
other comes to the product of the table that single look-ups read off the matrix. The factors that
are taken without multiplying make no difference, and the whole is linear in both vectors.
-/

namespace Socp

namespace CscMatrix

variable {α : Type}

/-! ### Columns to multiply with -/

def allColumns (A : CscMatrix α) : List (List (Nat × α)) :=
  List.ofFn fun j : Fin A.cols => A.columnAt j

theorem StoredFrom.stored?_eq_columnAt {A : CscMatrix α} {first j : Nat} (h : A.StoredFrom first)
    (hj : j < A.cols) :
    A.stored? j = some (A.columnAt j) := by
  obtain ⟨p, q, hp, hq, hpq, -, hcolumn, hkeys⟩ := h.exists_columnAt hj
  rw [stored?, hp, hq]
  simp only [Option.bind_eq_bind, Option.bind_some, hcolumn]
  split
  case isTrue hle =>
    -- a column that ends where it starts has no entries
    obtain rfl := Nat.le_antisymm hpq hle
    rw [Array.extract_empty_of_stop_le_start (Nat.le_refl p), List.map_eq_nil_iff] at hkeys
    rw [hkeys]
    rfl
  case isFalse => rfl

/-! ### Sums of additions -/

section

variable [AddCommMonoid α]

theorem sum_additionsAt_products {n : Nat} (term : α → α → α) (columns : Fin n → List (Nat × α))
    (x : Fin n → α) (r : Nat) :
    (additionsAt (products term (List.ofFn columns) (List.ofFn x)) r).sum =
      ∑ j, ((additionsAt (columns j) r).map (term · (x j))).sum := by
  have hzip : (List.ofFn columns).zip (List.ofFn x) = List.ofFn fun j => (columns j, x j) := by
    apply List.ext_getElem <;> simp
  rw [products, hzip, additionsAt_flatMap, List.flatMap_def, List.sum_flatten, List.map_map,
    List.map_ofFn, List.sum_ofFn]
  refine Finset.sum_congr rfl fun j _ => ?_
  exact congrArg List.sum (additionsAt_map (term · (x j)) (columns j) r)

end

/-! ### The product -/

variable {R : Type} [CommRing R]

/-- The matrix as a table, with zeros where nothing is stored. -/
def toMatrix (A : CscMatrix R) : Matrix (Fin A.rows) (Fin A.cols) R :=
  .of fun r j => ((A.entry? r j).getD none).getD 0

/-- `a * A * x + b * y` with every factor multiplied out. -/
def plainGemv? (A : CscMatrix R) (y x : Array R) (a b : R) : Option (Array R) :=
  A.scatter? (fun v xj => a * v * xj) x (y.map (· * b))

theorem scaleTarget_eq [BEq R] [LawfulBEq R] {n : Nat} (b : R) (y : Fin n → R) :
    scaleTarget b (.ofFn y) = .ofFn (b • y) := by
  have hmap : ∀ f : R → R, (∀ v, f v = b * v) → (Array.ofFn y).map f = .ofFn (b • y) := by
    intro f hf
    rw [Array.map_ofFn]
    congr 1
    funext r
    exact hf (y r)
  rw [scaleTarget]
  split
  case isTrue hb => exact hmap _ fun v => by rw [eq_of_beq hb, zero_mul]
  case isFalse =>
    split
    case isTrue hb => rw [eq_of_beq hb, one_smul]
    case isFalse =>
      split
      case isTrue hb => exact hmap _ fun v => by rw [eq_of_beq hb, neg_one_mul]
      case isFalse => exact hmap _ fun v => mul_comm v b

namespace StoredFrom

variable {A : CscMatrix R} {first : Nat}

theorem toMatrix_apply (h : A.StoredFrom first) (r : Fin A.rows) (j : Fin A.cols) :
    A.toMatrix r j = ((A.columnAt j).lookup ↑r).getD 0 := by
  rw [toMatrix, Matrix.of_apply, h.entry?_eq r.isLt j.isLt, Option.getD_some]

/-- A row has at most one entry in each column, so the sum of what it gets is a row of the
product. -/
theorem sum_additionsAt (h : A.StoredFrom first) {term : R → R → R} {a : R}
    (hterm : ∀ v xj, term v xj = a * v * xj) (x : Fin A.cols → R) (r : Fin A.rows) :
    (additionsAt (products term A.allColumns (List.ofFn x)) r).sum = a * A.toMatrix.mulVec x r := by
  rw [allColumns, sum_additionsAt_products, Matrix.mulVec, dotProduct, Finset.mul_sum]
  refine Finset.sum_congr rfl fun j _ => ?_
  rw [additionsAt_eq_lookup (h.nodup_keys_columnAt j.isLt), h.toMatrix_apply]
  cases (A.columnAt j).lookup r.val with
  | none => simp
  | some v => simp [hterm, mul_assoc]

theorem scatter?_eq (h : A.StoredFrom first) {term : R → R → R} {a : R}
    (hterm : ∀ v xj, term v xj = a * v * xj) (x : Fin A.cols → R) (y : Fin A.rows → R) :
    A.scatter? term (.ofFn x) (.ofFn y) = some (.ofFn (a • A.toMatrix.mulVec x + y)) := by
  have hlength : A.allColumns.length = A.cols := List.length_ofFn
  have hstored : ∀ j (hj : j < A.allColumns.length), A.stored? j = some A.allColumns[j] := by
    intro j hj
    rw [h.stored?_eq_columnAt (hlength ▸ hj)]
    simp [allColumns]
  have hbound : ∀ t ∈ products term A.allColumns (List.ofFn x), t.1 < (Array.ofFn y).size := by
    rw [Array.size_ofFn]
    refine lt_of_mem_products fun c hc => ?_
    obtain ⟨j, rfl⟩ := List.mem_ofFn.1 hc
    exact h.lt_of_mem_columnAt j.isLt
  rw [scatter?_eq_foldlM (by simp [hlength]) hstored, Array.toList_ofFn, foldlM_addAt? hbound]
  congr 1
  apply Array.ext
  · simp
  · intro r hr hr'
    have hsum := h.sum_additionsAt hterm x ⟨r, by simpa using hr'⟩
    rw [Array.getElem_mapIdx, Array.getElem_ofFn, Array.getElem_ofFn, List.foldl_eq_apply_foldr]
    exact (congrArg (y _ + ·) hsum).trans (add_comm _ _)

end StoredFrom

variable [BEq R] [LawfulBEq R]

/-- With and without shortcuts, what comes out is `a * A * x + b * y`. -/
theorem StoredFrom.gemv?_eq {A : CscMatrix R} {first : Nat} (h : A.StoredFrom first)
    (a b : R) (x : Fin A.cols → R) (y : Fin A.rows → R) :
    A.gemv? (.ofFn y) (.ofFn x) a b = some (.ofFn (a • A.toMatrix.mulVec x + b • y)) ∧
      A.plainGemv? (.ofFn y) (.ofFn x) a b =
        some (.ofFn (a • A.toMatrix.mulVec x + b • y)) := by
  have hplain : (Array.ofFn y).map (· * b) = .ofFn (b • y) := by
    rw [Array.map_ofFn]
    congr 1
    funext r
    exact mul_comm (y r) b
  have hnnz : A.nnz? = some A.value.size := h.sizes ▸ h.start_last
  refine ⟨?_, ?_⟩
  · rw [gemv?, scaleTarget_eq]
    simp only [Array.size_ofFn, hnnz, and_self, if_true]
    split
    case isTrue ha => rw [eq_of_beq ha, zero_smul, zero_add]
    case isFalse =>
      refine h.scatter?_eq ?_ x (b • y)
      intro v xj
      split
      case isTrue ha => rw [eq_of_beq ha, one_mul]
      case isFalse => rfl
  · rw [plainGemv?, hplain]
    exact h.scatter?_eq (fun v xj => rfl) x (b • y)

/-- On a matrix that passes the test, and for vectors of the right lengths, the product exists, is
`a * A * x + b * y` whatever shortcut the factors allow, and is linear in the two vectors. -/
theorem gemv?_eq_mulVec {A : CscMatrix R} (hA : A.WellFormed) (a b : R) :
    (∀ (r : Fin A.rows) (j : Fin A.cols), (A.entry? r j).isSome) ∧
      (∀ x y, A.gemv? (.ofFn y) (.ofFn x) a b =
        some (.ofFn (a • A.toMatrix.mulVec x + b • y))) ∧
      (∀ (x : Fin A.cols → R) (y : Fin A.rows → R),
        A.gemv? (.ofFn y) (.ofFn x) a b = A.plainGemv? (.ofFn y) (.ofFn x) a b) ∧
      ∀ (k k' : R) (x x' : Fin A.cols → R) (y y' : Fin A.rows → R), ∃ z z' : Fin A.rows → R,
        A.gemv? (.ofFn y) (.ofFn x) a b = some (.ofFn z) ∧
        A.gemv? (.ofFn y') (.ofFn x') a b = some (.ofFn z') ∧
        A.gemv? (.ofFn (k • y + k' • y')) (.ofFn (k • x + k' • x')) a b =
          some (.ofFn (k • z + k' • z')) := by
  obtain ⟨first, h⟩ := wellFormed_iff.1 hA
  refine ⟨?_, fun x y => (h.gemv?_eq a b x y).1, ?_, ?_⟩
  · intro r j
    rw [h.entry?_eq r.isLt j.isLt, Option.isSome_some]
  · intro x y
    rw [(h.gemv?_eq a b x y).1, (h.gemv?_eq a b x y).2]
  · intro k k' x x' y y'
    refine ⟨_, _, (h.gemv?_eq a b x y).1, (h.gemv?_eq a b x' y').1, ?_⟩
    rw [(h.gemv?_eq a b _ _).1, Matrix.mulVec_add, Matrix.mulVec_smul, Matrix.mulVec_smul]
    congr 2
    module

/-- A matrix with an empty row and an empty column, under factors that have to be multiplied. -/
theorem gemv?_eq_mulVec_with_gaps :
    let A : CscMatrix Int := ⟨3, 3, #[0, 2, 2, 3], #[0, 2, 0], #[4, -1, 5]⟩
    let x : Fin 3 → Int := fun j => 10 * j + 10
    let y : Fin 3 → Int := fun r => r + 1
    A.WellFormed ∧ A.gemv? (.ofFn y) (.ofFn x) 2 (-3) = some #[377, -6, -29] ∧
      A.gemv? (.ofFn y) (.ofFn x) 2 (-3) =
        some (.ofFn ((2 : Int) • A.toMatrix.mulVec x + (-3 : Int) • y)) := by
  intro A x y
  have hA : A.WellFormed := by decide +kernel
  exact ⟨hA, by decide +kernel, (gemv?_eq_mulVec hA 2 (-3)).2.1 x y⟩

end CscMatrix

end Socp
