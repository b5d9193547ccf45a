import Socp.Program.Data
import Socp.Program.Query

/-!
Linear expressions over the variables of a program. A variable may occur more than once.
-/

namespace Socp

structure Summand (α : Type) where
  coefficient : α
  var : VariableId

/-- A sum of weighted variables, in the order in which they were added. -/
structure Expression (α : Type) where
  summands : List (Summand α)

namespace Expression

variable {α : Type}

def empty : Expression α := ⟨[]⟩

def add (e : Expression α) (t : Summand α) : Expression α := ⟨e.summands ++ [t]⟩

def size (e : Expression α) : Nat := e.summands.length

def evaluate [Zero α] [Add α] [Mul α] (e : Expression α) (p : Program α) :
    Except ProgramError α :=
  e.summands.foldlM (fun total t => do
    return total + t.coefficient * (← p.findVariable t.var).primal) 0

/-- Puts the new objective coefficient of one summand's variable in front. A variable that occurred
before goes on from its pending coefficient and not from the one the program holds. -/
def pend [Add α] [Mul α] (p : Program α) (scale : α) (pending : List (VariableId × α))
    (t : Summand α) : Except ProgramError (List (VariableId × α)) := do
  let current ←
    match pending.lookup t.var with
    | some c => pure c
    | none => (·.objective) <$> p.findVariable t.var
  return (t.var, current + scale * t.coefficient) :: pending

def pendingObjective [Add α] [Mul α] (e : Expression α) (p : Program α) (scale : α) :
    Except ProgramError (List (VariableId × α)) :=
  e.summands.foldlM (pend p scale) []

/-- Adds a multiple of the expression to the objective. All coefficients are found before the
first is stored, so a bad variable changes nothing. -/
def addToObjective [Add α] [Mul α] (e : Expression α) (scale : α) : ProgramM α Unit := do
  ProgramM.requireIdle
  let pending ← ProgramM.ask (e.pendingObjective · scale)
  pending.reverse.forM fun (v, c) => ProgramM.setObjectiveCoefficient v c

end Expression

end Socp
