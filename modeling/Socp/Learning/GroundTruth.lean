import Socp.Learning.Weight

/-!
Ground truths and the sign that each gives to its variable in a loss term.
-/

namespace Socp

/-- What to make of a ground truth other than 0 and 1. -/
inductive GroundTruthPolicy
  /-- All count like 1. -/
  | positiveFallback
  /-- Those from one half on count like 1, the others like 0. -/
  | threshold
  /-- None is accepted. -/
  | strict
deriving DecidableEq, Repr

namespace GroundTruthPolicy

instance : Inhabited GroundTruthPolicy := ⟨positiveFallback⟩

def name : GroundTruthPolicy → String
  | positiveFallback => "PositiveFallback"
  | threshold => "Threshold"
  | strict => "Strict"

variable {α : Type} [Scalar α]

def validate (policy : GroundTruthPolicy) (truth : α) : Except (KernelError α) Unit :=
  if Scalar.isFinite truth = false ∨ truth < 0 ∨ 1 < truth then .error (.badGroundTruth truth)
  else if policy = .strict ∧ (truth == 0 || truth == 1) = false then
    .error (.unsupportedGroundTruth truth)
  else .ok ()

/-- The coefficient of the variable in the loss term. -/
def sign (policy : GroundTruthPolicy) (truth : α) : α :=
  if truth == 1 then 1
  else if truth == 0 then -1
  else match policy with
    | positiveFallback | strict => 1
    | threshold => if Scalar.half ≤ truth then 1 else -1

end GroundTruthPolicy

end Socp
