import Mathlib.Algebra.Field.Rat
import Mathlib.Algebra.Order.Field.Basic
import Mathlib.Algebra.Order.Ring.Rat
import Mathlib.Data.Rat.Sqrt
import Socp.Proofs.Scalar.Ordered

/-!
The numbers of an ordered field together with two infinities and a value that is not a number, under
the arithmetic of the binary formats but without their rounding.
-/

namespace Socp

/-- Numbers from which square roots can be taken. -/
class SquareRoot (K : Type) where
  sqrt : K → K

instance : SquareRoot ℚ := ⟨Rat.sqrt⟩

inductive Extended (K : Type)
  | finite (x : K)
  | posInf
  | negInf
  | nan
deriving DecidableEq

namespace Extended

variable {K : Type} [Field K] [LinearOrder K]

def neg : Extended K → Extended K
  | .finite x => .finite (-x)
  | .posInf => .negInf
  | .negInf => .posInf
  | .nan => .nan

def add : Extended K → Extended K → Extended K
  | .finite x, .finite y => .finite (x + y)
  | .nan, _ | _, .nan | .posInf, .negInf | .negInf, .posInf => .nan
  | .posInf, _ | _, .posInf => .posInf
  | .negInf, _ | _, .negInf => .negInf

/-- The infinity with the sign of a number; zero has none. -/
def infinity (x : K) : Extended K := if 0 < x then .posInf else if x < 0 then .negInf else .nan

def mul : Extended K → Extended K → Extended K
  | .finite x, .finite y => .finite (x * y)
  | .nan, _ | _, .nan => .nan
  | .posInf, .finite x | .finite x, .posInf => infinity x
  | .negInf, .finite x | .finite x, .negInf => infinity (-x)
  | .posInf, .posInf | .negInf, .negInf => .posInf
  | .posInf, .negInf | .negInf, .posInf => .negInf

def div : Extended K → Extended K → Extended K
  | .finite x, .finite y => if y = 0 then infinity x else .finite (x / y)
  | .nan, _ | _, .nan => .nan
  | .finite _, .posInf | .finite _, .negInf => .finite 0
  | .posInf, .finite y => if y < 0 then .negInf else .posInf
  | .negInf, .finite y => if y < 0 then .posInf else .negInf
  | .posInf, _ | .negInf, _ => .nan

/-- The order. The value that is not a number is comparable to none. -/
def le : Extended K → Extended K → Bool
  | .finite x, .finite y => x ≤ y
  | .nan, _ | _, .nan => false
  | .negInf, _ | _, .posInf => true
  | _, _ => false

def abs : Extended K → Extended K
  | .finite x => .finite |x|
  | .posInf | .negInf => .posInf
  | .nan => .nan

def sqrt [SquareRoot K] : Extended K → Extended K
  | .finite x => if x < 0 then .nan else .finite (SquareRoot.sqrt x)
  | .posInf => .posInf
  | .negInf | .nan => .nan

instance [SquareRoot K] : Scalar (Extended K) where
  zero := .finite 0
  one := .finite 1
  add := add
  sub a b := add a (neg b)
  mul := mul
  div := div
  neg := neg
  beq a b := le a b && le b a
  le a b := le a b = true
  lt a b := (le a b && !le b a) = true
  decidableLE _ _ := inferInstanceAs (Decidable (_ = true))
  decidableLT _ _ := inferInstanceAs (Decidable (_ = true))
  abs := abs
  sqrt := sqrt
  isNaN a := a matches .nan
  isFinite a := a matches .finite _
  half := .finite (1 / 2)
  defaultTolerance := .finite (1 / 10 ^ 8)

/-! ### The laws of comparison -/

section

variable [SquareRoot K]

theorem le_def {a b : Extended K} : a ≤ b ↔ le a b = true := Iff.rfl

theorem lt_def {a b : Extended K} : a < b ↔ (le a b && !le b a) = true := Iff.rfl

theorem zero_def : (0 : Extended K) = .finite 0 := rfl

theorem add_def (a b : Extended K) : a + b = add a b := rfl

theorem neg_def (a : Extended K) : -a = neg a := rfl

theorem sub_def (a b : Extended K) : a - b = add a (neg b) := rfl

theorem mul_def (a b : Extended K) : a * b = mul a b := rfl

end

instance [SquareRoot K] : UnorderedSpreads (Extended K) where
  isNaN_add {a b} h := by
    rw [add_def]
    cases a <;> cases b <;> simp_all [add, Scalar.isNaN]
  isNaN_sub {a b} h := by
    rw [sub_def]
    cases a <;> cases b <;> simp_all [add, neg, Scalar.isNaN]
  isNaN_mul {a b} h := by
    rw [mul_def]
    cases a <;> cases b <;> simp_all [mul, Scalar.isNaN]
  isNaN_sqrt {a} h := by
    cases a with
    | nan => rfl
    | finite | posInf | negInf => cases h

variable [SquareRoot K] [IsStrictOrderedRing K]

instance : OrderedScalar (Extended K) where
  le_refl {a} ha := by
    cases a with
    | finite x => simp [le_def, le]
    | posInf => rfl
    | negInf => rfl
    | nan => cases ha
  le_trans {a b c} hab hbc := by
    rw [le_def] at *
    cases a <;> cases b <;> cases c <;> simp_all [le]
    exact hab.trans hbc
  le_total {a b} ha hb := by
    rw [le_def, le_def]
    cases a <;> cases b <;> simp_all [le, Scalar.isNaN]
    exact le_total _ _
  lt_iff {a b} := by
    rw [lt_def, le_def, le_def]
    simp
  ordered_of_le {a b} hab := by
    rw [le_def] at hab
    cases a <;> cases b <;> simp_all [le, Scalar.isNaN]
  isNaN_zero := rfl
  isNaN_abs a := by cases a <;> rfl
  isNaN_neg a := by cases a <;> rfl
  neg_le {a b} hab := by
    rw [neg_def, le_def] at *
    cases a <;> cases b <;> simp_all [le, neg]
    exact neg_le.1 hab
  le_add_right {a b} ha hb := by
    rw [zero_def, le_def] at ha hb
    rw [le_def, add_def]
    cases a <;> cases b <;> simp_all [le, add]
  le_add_left {a b} ha hb := by
    rw [zero_def, le_def] at ha hb
    rw [le_def, add_def]
    cases a <;> cases b <;> simp_all [le, add]

end Extended

end Socp
