import Mathlib.Algebra.BigOperators.Group.List.Basic
import Socp.Dense

/-!
Sums over exact numbers. Where addition is associative it makes no difference how a sum is split.
-/

namespace Socp.Dense

variable {α : Type}

theorem stretchSum_eq_sum [AddMonoid α] (xs : List α) (first count : Nat) :
    stretchSum xs first count = ((xs.drop first).take count).sum := by
  fun_induction stretchSum xs first count with
  | case1 first count hshort => exact List.sum_eq_foldl.symm
  | case2 first count hlong ihleft ihright =>
      rw [ihleft, ihright, ← List.sum_append, take_drop_halves]

theorem pairwiseSum_eq_sum [AddMonoid α] (xs : List α) : pairwiseSum xs = xs.sum := by
  rw [pairwiseSum, stretchSum_eq_sum, List.drop_zero, List.take_length]

end Socp.Dense
