import Socp.Program.Query

/-!
How well the stored values fit the program. While the matrices are lent these are the values from
before, not those the solver works on.
-/

namespace Socp

namespace Program

variable {α : Type}

/-- `∑ a_j x_j - b`, summed in the order of the terms. -/
def constraintResidual [Zero α] [Add α] [Mul α] [Sub α] (p : Program α) (con : ConstraintId) :
    Except ProgramError α := do
  let con ← p.constraints.find con
  let lhs ← con.terms.toList.foldlM (fun lhs (v, a) => do
    return lhs + a * (← p.vars.find v).primal) 0
  return lhs - con.rhs

/-- The objective at the stored values, over the variables in the order of their creation. -/
def objectiveValue [Zero α] [Add α] [Mul α] (p : Program α) : α :=
  Dense.pairwiseSum (p.vars.values.map fun v => v.objective * v.primal)

def primalValues (p : Program α) (vs : List VariableId) : Except ProgramError (List α) :=
  vs.mapM fun v => (·.primal) <$> p.vars.find v

variable [Scalar α]

def coneResidual (p : Program α) (id : ConeId) : Except Fault α := do
  let cone ← Fault.ofRefusal (p.cones.find id)
  let values ← Fault.ofRefusal (p.primalValues cone.vars)
  Fault.ofOption (cone.margin? values)

/-- The largest violation of a constraint plus the largest violation of a cone. -/
def primalResidual (p : Program α) : Except Fault α := do
  let worstConstraint ← p.constraints.handles.foldlM (fun worst id => do
    let r ← Fault.ofRefusal (p.constraintResidual id)
    return Scalar.maxNum worst (Scalar.abs r)) 0
  let worstCone ← p.cones.handles.foldlM (fun worst id => do
    let m ← p.coneResidual id
    return Scalar.maxNum worst (-m)) 0
  return worstConstraint + worstCone

/-- Whether the stored values satisfy everything up to the tolerance of the settings. -/
def isPrimalFeasible (p : Program α) : Except Fault Bool := do
  return decide ((← p.primalResidual) ≤ p.settings.feasibilityTol)

end Program

end Socp
