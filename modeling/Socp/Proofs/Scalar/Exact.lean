import Mathlib.Algebra.Order.BigOperators.Group.List
import Mathlib.Analysis.Real.Sqrt
import Mathlib.Data.Rat.Sqrt
import Mathlib.Tactic.Linarith
import Socp.Cone
import Socp.Proofs.Dense

/-!
Exact arithmetic: the numbers of an ordered field from which square roots can be taken. Nothing is
unordered there and nothing is rounded, so norms and margins mean what their formulas say. Where no
root is taken and nothing is divided, the numbers of an ordered ring will do.
-/

namespace Socp

/-- An ordered field in which the root of a value that is not negative squares to that value. -/
class ExactScalar (K : Type) extends Scalar K, Field K, LinearOrder K, IsStrictOrderedRing K where
  isNaN_eq : ∀ a : K, Scalar.isNaN a = false
  abs_eq : ∀ a : K, Scalar.abs a = |a|
  sqrt_nonneg : ∀ a : K, 0 ≤ a → 0 ≤ Scalar.sqrt a
  sqrt_mul_sqrt : ∀ a : K, 0 ≤ a → Scalar.sqrt a * Scalar.sqrt a = a

noncomputable instance : ExactScalar ℝ where
  __ := (inferInstance : Field ℝ)
  __ := (inferInstance : LinearOrder ℝ)
  __ := (inferInstance : IsStrictOrderedRing ℝ)
  decidableLE := inferInstance
  decidableLT := inferInstance
  beq a b := decide (a = b)
  abs a := |a|
  sqrt := Real.sqrt
  isNaN _ := false
  isFinite _ := true
  half := (2 : ℕ)⁻¹
  defaultTolerance := (10 ^ 8 : ℕ)⁻¹
  isNaN_eq _ := rfl
  abs_eq _ := rfl
  sqrt_nonneg a _ := Real.sqrt_nonneg a
  sqrt_mul_sqrt _ := Real.mul_self_sqrt

/-- An ordered ring of values that are all finite and equal only to themselves. -/
class ExactRing (R : Type) extends Scalar R, CommRing R, LinearOrder R, IsStrictOrderedRing R where
  isFinite_eq : ∀ a : R, Scalar.isFinite a = true
  abs_eq : ∀ a : R, Scalar.abs a = |a|
  beq_iff_eq : ∀ a b : R, (a == b) = true ↔ a = b

namespace ExactRing

scoped instance : ExactRing ℚ where
  __ := (inferInstance : CommRing ℚ)
  __ := (inferInstance : LinearOrder ℚ)
  __ := (inferInstance : IsStrictOrderedRing ℚ)
  __ := (inferInstance : Div ℚ)
  decidableLE := inferInstance
  decidableLT := inferInstance
  beq a b := decide (a = b)
  abs a := |a|
  sqrt := Rat.sqrt
  isNaN _ := false
  isFinite _ := true
  half := (2 : ℕ)⁻¹
  defaultTolerance := (10 ^ 8 : ℕ)⁻¹
  isFinite_eq _ := rfl
  abs_eq _ := rfl
  beq_iff_eq _ _ := decide_eq_true_iff

end ExactRing

namespace ExactScalar

variable {K : Type} [ExactScalar K]

theorem maxNum_eq (a b : K) : Scalar.maxNum a b = max a b := by
  rw [Scalar.maxNum, if_neg (by simp [isNaN_eq]), if_neg (by simp [isNaN_eq])]
  split
  case isTrue hlt => exact (max_eq_right (le_of_lt hlt)).symm
  case isFalse hle => exact (max_eq_left (not_lt.1 hle)).symm

theorem minNum_eq (a b : K) : Scalar.minNum a b = min a b := by
  rw [Scalar.minNum, if_neg (by simp [isNaN_eq]), if_neg (by simp [isNaN_eq])]
  split
  case isTrue hlt => exact (min_eq_right (le_of_lt hlt)).symm
  case isFalse hle => exact (min_eq_left (not_lt.1 hle)).symm

theorem sqrt_le_iff {a b : K} (ha : 0 ≤ a) : Scalar.sqrt a ≤ b ↔ 0 ≤ b ∧ a ≤ b * b := by
  have hroot := sqrt_nonneg a ha
  have hsquare := sqrt_mul_sqrt a ha
  constructor
  · intro hle
    have hmul := mul_self_le_mul_self hroot hle
    rw [hsquare] at hmul
    exact ⟨hroot.trans hle, hmul⟩
  · rintro ⟨hb, hle⟩
    rw [← hsquare] at hle
    exact (mul_self_le_mul_self_iff hroot hb).2 hle

theorem sumSq_eq (xs : List K) : Dense.sumSq xs = (xs.map (· ^ 2)).sum := by
  rw [Dense.sumSq, Dense.pairwiseSum_eq_sum]
  simp only [sq]

theorem sumSq_nonneg (xs : List K) : 0 ≤ Dense.sumSq xs := by
  rw [sumSq_eq]
  refine List.sum_nonneg ?_
  intro a ha
  obtain ⟨x, -, rfl⟩ := List.mem_map.1 ha
  exact sq_nonneg x

theorem norm_le_iff {xs : List K} {b : K} :
    Dense.norm xs ≤ b ↔ 0 ≤ b ∧ (xs.map (· ^ 2)).sum ≤ b ^ 2 := by
  rw [Dense.norm, sqrt_le_iff (sumSq_nonneg xs), sumSq_eq, sq]

end ExactScalar

/-! ### Cones by their inequalities -/

namespace Cone

variable {K : Type} [ExactScalar K]

/-- The inequalities that define the cone hold at the values `x`. -/
def Contains (c : Cone) (x : VariableId → K) : Prop :=
  match c with
  | .orthant v => 0 ≤ x v
  | .secondOrder inner apex => 0 ≤ x apex ∧ (inner.map fun v => x v ^ 2).sum ≤ x apex ^ 2
  | .rotated u v inner =>
    0 ≤ x u ∧ 0 ≤ x v ∧ (inner.map fun w => x w ^ 2).sum ≤ 2 • (x u * x v)

/-- A margin that is not negative says that the point lies in the cone. -/
theorem margin_nonneg_iff {c : Cone} {x : VariableId → K} {m : K}
    (hm : c.margin? (c.vars.map x) = some m) : 0 ≤ m ↔ c.Contains x := by
  have hlen : (c.vars.map x).length = c.dim := List.length_map ..
  rw [margin?, if_pos hlen] at hm
  cases c with
  | orthant v =>
      cases hm
      rfl
  | secondOrder inner apex =>
      have hm' : m = x apex - Dense.norm (inner.map x) := by
        simpa [kind, vars, ConeKind.margin?, eq_comm] using hm
      rw [hm', sub_nonneg, ExactScalar.norm_le_iff, List.map_map]
      rfl
  | rotated u v inner =>
      cases hm
      rw [ExactScalar.minNum_eq, ExactScalar.minNum_eq, le_min_iff, le_min_iff, sub_nonneg,
        ExactScalar.sumSq_eq, List.map_map, and_assoc]
      have hgap : Scalar.two * x u * x v = 2 • (x u * x v) := by
        have htwo : (Scalar.two : K) = 2 := one_add_one_eq_two
        rw [htwo, two_nsmul, mul_assoc, two_mul]
      rw [hgap]
      rfl

end Cone

end Socp
