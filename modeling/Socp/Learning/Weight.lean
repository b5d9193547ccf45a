import Socp.Scalar.Binary
import Socp.Decimal.Plain

/-!
Weights of rules, and why a kernel turns down a question or a value.
-/

namespace Socp

/-- What a kernel may have no answer to. -/
inductive KernelQuestion
  | kernel
  | binding
deriving DecidableEq, Repr

def KernelQuestion.name : KernelQuestion → String
  | .kernel => "kernel"
  | .binding => "binding"

inductive KernelError (α : Type)
  | notApplicable (question : KernelQuestion)
  /-- The ground truth is no number from 0 to 1. -/
  | badGroundTruth (truth : α)
  /-- The ground truth is neither 0 nor 1. -/
  | unsupportedGroundTruth (truth : α)
  | negativeWeight

/-- Values are written in full, in the fewest digits that read back in double precision. -/
def KernelError.message {α : Type} [BinaryFormat α] : KernelError α → String
  | .notApplicable question => question.name ++ " is not applicable to this kernel"
  | .badGroundTruth truth =>
    "ground truth value " ++ Decimal.plain (BinaryFormat.toDouble truth) ++
      " is not a finite value in [0,1]"
  | .unsupportedGroundTruth truth =>
    "ground truth value " ++ Decimal.plain (BinaryFormat.toDouble truth) ++ " is not 0 or 1"
  | .negativeWeight => "weights must be nonnegative"

structure PositiveWeight (α : Type) where
  value : α
deriving BEq

namespace PositiveWeight

variable {α : Type} [Scalar α]

/-- An unordered value is no weight. -/
def ofValue (value : α) : Except (KernelError α) (PositiveWeight α) :=
  if 0 ≤ value then .ok ⟨value⟩ else .error .negativeWeight

def one : PositiveWeight α := ⟨1⟩

end PositiveWeight

end Socp
