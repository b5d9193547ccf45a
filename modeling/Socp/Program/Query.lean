import Socp.Program.Basic

/-!
Looking up the entities of a program and listing the live ones in the order of their creation.
-/

namespace Socp

namespace Program

variable {α : Type}

def findVariable (p : Program α) (v : VariableId) : Except ProgramError (Variable α) :=
  p.vars.find v

def findCone (p : Program α) (id : ConeId) : Except ProgramError Cone := p.cones.find id

def findConstraint (p : Program α) (con : ConstraintId) : Except ProgramError (Constraint α) :=
  p.constraints.find con

/-- The variable of an orthant cone. -/
def findOrthant (p : Program α) (id : ConeId) : Except ProgramError VariableId := do
  match ← p.findCone id with
  | .orthant x => return x
  | other => throw (.coneKindMismatch .orthant other.kind)

/-- The inner variables and the apex of a second-order cone. -/
def findSecondOrder (p : Program α) (id : ConeId) :
    Except ProgramError (List VariableId × VariableId) := do
  match ← p.findCone id with
  | .secondOrder inner apex => return (inner, apex)
  | other => throw (.coneKindMismatch .secondOrder other.kind)

/-- The two apex variables and the inner ones of a rotated cone. -/
def findRotated (p : Program α) (id : ConeId) :
    Except ProgramError ((VariableId × VariableId) × List VariableId) := do
  match ← p.findCone id with
  | .rotated u v inner => return ((u, v), inner)
  | other => throw (.coneKindMismatch .rotated other.kind)

def coneCount (p : Program α) : Nat := p.cones.size

def variableCount (p : Program α) : Nat := p.vars.size

def constraintCount (p : Program α) : Nat := p.constraints.size

/-- The number of cones of one kind, as counted along. -/
def kindCount (p : Program α) (kind : ConeKind) : Nat := p.kindCounts.get kind

def conesOfKind (p : Program α) (kind : ConeKind) : List (ConeId × Cone) :=
  p.cones.toList.filter fun entry => entry.2.kind = kind

def isCheckedOut (p : Program α) : Bool := p.session.isSome

end Program

end Socp
