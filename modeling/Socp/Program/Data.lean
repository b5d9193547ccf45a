import Socp.Program.Basic

/-!
Setting the numbers in a program: coefficients, right-hand sides and the values of variables.
-/

namespace Socp

namespace ProgramM

variable {α : Type}

def addVariable [Zero α] [BEq α] (con : ConstraintId) (v : VariableId) (a : α) :
    ProgramM α Unit := do
  requireIdle
  let _ ← ask (·.vars.find v)
  let dropZeros := (← get).settings.dropZeros
  updateConstraint con (·.setTerm v a dropZeros)

def setConstrainedValue (con : ConstraintId) (rhs : α) : ProgramM α Unit := do
  requireIdle
  updateConstraint con ({ · with rhs := rhs })

def setObjectiveCoefficient (v : VariableId) (c : α) : ProgramM α Unit := do
  requireIdle
  updateVariable v ({ · with objective := c })

def setPrimalValue (v : VariableId) (x : α) : ProgramM α Unit := do
  requireIdle
  updateVariable v ({ · with primal := x })

def setDualValue (v : VariableId) (s : α) : ProgramM α Unit := do
  requireIdle
  updateVariable v ({ · with dual := s })

/-- Overwrites settings, lent matrices or not. -/
def chooseSettings (choice : SettingsChoice α) : ProgramM α Unit :=
  modify fun p => { p with settings := p.settings.override choice }

end ProgramM

/-- Reports to another target from now on. -/
def Program.printTo {α : Type} (p : Program α) (target : PrintTarget) : Program α :=
  { p with output := target }

end Socp
