import Mathlib.Algebra.BigOperators.Fin
import Mathlib.Algebra.FreeMonoid.Basic
import Mathlib.Tactic.Ring
import Socp.Proofs.Scalar.Exact

/-!
Inner products and norms over exact numbers. A pairwise sum takes every entry once, whatever the
length and however the stretches are halved, so an inner product is the plain sum of the products
and has the laws of one, and a norm is the root of the sum of the squares.
-/

namespace Socp.Dense

/-- Run on symbols, a sum spells out the entries that it takes, one by one and in their order. -/
theorem pairwiseSum_map_of {ι : Type} (is : List ι) :
    pairwiseSum (is.map FreeAddMonoid.of) = FreeAddMonoid.ofList is := by
  rw [pairwiseSum_eq_sum]
  induction is with
  | nil => rfl
  | cons i is ih => rw [List.map_cons, List.sum_cons, ih, FreeAddMonoid.ofList_cons]

/-! ### Inner products -/

section

variable {R : Type} [CommSemiring R] {n : ℕ}

theorem dot?_ofFn (x y : Fin n → R) :
    dot? (List.ofFn x) (List.ofFn y) = some (∑ i, x i * y i) := by
  have hproducts : List.zipWith (· * ·) (List.ofFn x) (List.ofFn y) =
      List.ofFn fun i => x i * y i := by
    apply List.ext_getElem <;> simp
  rw [dot?, if_pos (by simp), hproducts, pairwiseSum_eq_sum, List.sum_ofFn]

theorem sumSq_ofFn (x : Fin n → R) : sumSq (List.ofFn x) = ∑ i, x i ^ 2 := by
  refine Option.some.inj ?_
  rw [← dot?_self, dot?_ofFn]
  simp only [sq]

theorem dot?_comm (x y : Fin n → R) :
    dot? (List.ofFn x) (List.ofFn y) = dot? (List.ofFn y) (List.ofFn x) := by
  simp only [dot?_ofFn, mul_comm]

theorem sum_combination_mul (a b : R) (x y z : Fin n → R) :
    ∑ i, (a • x + b • y) i * z i = a * ∑ i, x i * z i + b * ∑ i, y i * z i := by
  rw [Finset.mul_sum, Finset.mul_sum, ← Finset.sum_add_distrib]
  refine Finset.sum_congr rfl fun i _ => ?_
  rw [Pi.add_apply, Pi.smul_apply, Pi.smul_apply, smul_eq_mul, smul_eq_mul]
  ring

theorem dot?_append {m : ℕ} (x y : Fin m → R) (x' y' : Fin n → R) :
    dot? (List.ofFn x ++ List.ofFn x') (List.ofFn y ++ List.ofFn y') =
      some (∑ i, x i * y i + ∑ i, x' i * y' i) := by
  rw [← List.ofFn_fin_append, ← List.ofFn_fin_append, dot?_ofFn, Fin.sum_univ_add]
  simp only [Fin.append_left, Fin.append_right]

end

/-! ### Norms -/

section

variable {K : Type} [ExactScalar K] {n : ℕ}

theorem norm_sq_ofFn (x : Fin n → K) : norm (List.ofFn x) ^ 2 = ∑ i, x i ^ 2 := by
  rw [norm, sq, ExactScalar.sqrt_mul_sqrt _ (ExactScalar.sumSq_nonneg _)]
  exact sumSq_ofFn x

theorem norm_ofFn_eq_zero_iff (x : Fin n → K) : norm (List.ofFn x) = 0 ↔ ∀ i, x i = 0 := by
  rw [← sq_eq_zero_iff, norm_sq_ofFn, Finset.sum_eq_zero_iff_of_nonneg fun i _ => sq_nonneg (x i)]
  simp

end

/-- Over exact numbers the inner product of vectors of one length exists and adds up the products of
their entries, each index once. So it is symmetric and bilinear, the parts of vectors may be
multiplied on their own, and the norm squares to the sum of the squares. -/
theorem dot?_eq_sum {R K : Type} [CommSemiring R] [ExactScalar K] (n : ℕ) :
    pairwiseSum ((List.finRange n).map FreeAddMonoid.of) =
        FreeAddMonoid.ofList (List.finRange n) ∧
      (∀ x y : Fin n → R, dot? (.ofFn x) (.ofFn y) = some (∑ i, x i * y i)) ∧
      (∀ x : Fin n → R, sumSq (.ofFn x) = ∑ i, x i ^ 2) ∧
      (∀ x y : Fin n → R, dot? (.ofFn x) (.ofFn y) = dot? (.ofFn y) (.ofFn x)) ∧
      (∀ (a b : R) (x y z : Fin n → R), ∃ s t : R,
        dot? (.ofFn x) (.ofFn z) = some s ∧ dot? (.ofFn y) (.ofFn z) = some t ∧
        dot? (.ofFn (a • x + b • y)) (.ofFn z) = some (a * s + b * t) ∧
        dot? (.ofFn z) (.ofFn (a • x + b • y)) = some (a * s + b * t)) ∧
      (∀ (m : ℕ) (x y : Fin m → R) (x' y' : Fin n → R), ∃ s t : R,
        dot? (.ofFn x) (.ofFn y) = some s ∧ dot? (.ofFn x') (.ofFn y') = some t ∧
        dot? (.ofFn x ++ .ofFn x') (.ofFn y ++ .ofFn y') = some (s + t)) ∧
      ∀ x : Fin n → K, norm (.ofFn x) ^ 2 = ∑ i, x i ^ 2 ∧
        (norm (.ofFn x) = 0 ↔ ∀ i, x i = 0) := by
  refine ⟨pairwiseSum_map_of _, dot?_ofFn, sumSq_ofFn, dot?_comm, ?_, ?_, ?_⟩
  · intro a b x y z
    have hleft : dot? (.ofFn (a • x + b • y)) (.ofFn z) =
        some (a * ∑ i, x i * z i + b * ∑ i, y i * z i) := by
      rw [dot?_ofFn, sum_combination_mul]
    exact ⟨_, _, dot?_ofFn x z, dot?_ofFn y z, hleft, (dot?_comm _ _).trans hleft⟩
  · intro m x y x' y'
    exact ⟨_, _, dot?_ofFn x y, dot?_ofFn x' y', dot?_append x y x' y'⟩
  · intro x
    exact ⟨norm_sq_ofFn x, norm_ofFn_eq_zero_iff x⟩

end Socp.Dense
