import Socp.Learning.Expression
import Socp.Learning.GroundTruth

/-!
A kernel that rewards disagreement with a fixed ground truth, for loss-augmented inference. Its
weight is fixed, and it comes from no rule.
-/

namespace Socp

/-- A variable of a program together with the value it has been given. -/
structure Atom (α : Type) where
  var : VariableId
  value : α

/-- The part an atom plays in the rule behind a kernel. -/
inductive BindingMode
  | strong
  | weak
  /-- The atom is observed and fixed. -/
  | observed
deriving DecidableEq, Repr

structure TemplateRule (α : Type) where
  weight : PositiveWeight α

structure LossKernel (α : Type) where
  atom : Atom α
  truth : α
  policy : GroundTruthPolicy

namespace LossKernel

variable {α : Type} [Scalar α]

/-- The kernel for a ground truth that the policy accepts. -/
def create (atom : Atom α) (truth : α) (policy : GroundTruthPolicy) :
    Except (KernelError α) (LossKernel α) := do
  policy.validate truth
  return ⟨atom, truth, policy⟩

def atoms (k : LossKernel α) : List (Atom α) := [k.atom]

/-- Takes over new parameters from the rule; the first component tells whether any changed. -/
def updateParameters (k : LossKernel α) : Bool × LossKernel α := (false, k)

def rule (_ : LossKernel α) : Except (KernelError α) (TemplateRule α) :=
  .error (.notApplicable .kernel)

def binding (_ : LossKernel α) (_ : Atom α) : Except (KernelError α) BindingMode :=
  .error (.notApplicable .binding)

def weight (_ : LossKernel α) : PositiveWeight α := .one

/-- One less the distance of the atom's value from the truth. -/
def incompatibility (k : LossKernel α) : α := 1 - Scalar.abs (k.atom.value - k.truth)

def derivative (_ : LossKernel α) (_ : Nat) : α := 1

def hessian (_ : LossKernel α) (_ _ : Nat) : α := 0

def definition (k : LossKernel α) : Expression α :=
  Expression.empty.add ⟨k.policy.sign k.truth, k.atom.var⟩

end LossKernel

end Socp
