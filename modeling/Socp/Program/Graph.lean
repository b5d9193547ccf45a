import Socp.Program.Basic

/-!
Creating and deleting cones and constraints. Variables come and go with their cone.
-/

namespace Socp

namespace ProgramM

variable {α : Type}

/-- Creates a cone over new variables. -/
def createCone [Zero α] (kind : ConeKind) (n : Nat) : ProgramM α ConeId := do
  requireIdle
  if n < kind.minDim then refuse (.badConeDimension kind n kind.minDim)
  let p ← get
  let id := p.cones.nextHandle
  let (vars, extended) := p.vars.insertCopies (Variable.blank id) n
  setVariables extended
  let cone ← lift (Fault.ofOption (Cone.ofVariables? kind vars))
  let (inserted, cones) := p.cones.insert cone
  setCones cones
  if inserted ≠ id then abort
  modify fun p => { p with kindCounts := p.kindCounts.increment kind }
  return id

/-- A cone of one variable that is not negative. -/
def createOrthant [Zero α] : ProgramM α ConeId := createCone .orthant 1

def createSecondOrder [Zero α] (n : Nat) : ProgramM α ConeId := createCone .secondOrder n

def createRotated [Zero α] (n : Nat) : ProgramM α ConeId := createCone .rotated n

/-- Creates the equation without terms and with right-hand side zero. -/
def createConstraint [Zero α] : ProgramM α ConstraintId := do
  requireIdle
  let (id, constraints) := (← get).constraints.insert Constraint.blank
  setConstraints constraints
  return id

def deleteVariable (v : VariableId) : ProgramM α Unit := do
  modify fun p => { p with constraints := p.constraints.mapValues (·.eraseTerm v) }
  setVariables (← ask (·.vars.remove v)).2

/-- Deletes a cone with its variables; constraints keep their other terms. -/
def deleteCone (id : ConeId) : ProgramM α Unit := do
  requireIdle
  let (cone, cones) ← ask (·.cones.remove id)
  setCones cones
  cone.vars.forM deleteVariable
  let counts ← lift (Fault.ofOption ((← get).kindCounts.decrement? cone.kind))
  modify fun p => { p with kindCounts := counts }

def deleteConstraint (id : ConstraintId) : ProgramM α Unit := do
  requireIdle
  setConstraints (← ask (·.constraints.remove id)).2

end ProgramM

end Socp
