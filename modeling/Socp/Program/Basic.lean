import Socp.Cone.Counts
import Socp.Constraint
import Socp.Error
import Socp.Output.Target
import Socp.Session
import Socp.Settings
import Socp.Store
import Socp.Variable

/-!
A second-order cone program as a graph that can be edited: cones own variables, and constraints
relate variables. While a session is present the program is lent to a solver and is not edited.

An operation that fails leaves behind whatever it had done by then, so that it is a theorem, and
no matter of course, where a failure changes nothing.
-/

namespace Socp

structure Program (α : Type) where
  vars : Store .var (Variable α)
  cones : Store .cone Cone
  constraints : Store .constraint (Constraint α)
  kindCounts : KindCounts
  session : Option (Session α)
  settings : Settings α
  output : PrintTarget

/-- The program that issues handles under the given number, with nothing in it yet. -/
def Program.empty {α : Type} (id : Nat) (settings : Settings α) : Program α where
  vars := .empty .var (Variable α) id
  cones := .empty .cone Cone id
  constraints := .empty .constraint (Constraint α) id
  kindCounts := .none
  session := none
  settings := settings
  output := .console []

/-- An operation on a program. -/
abbrev ProgramM (α : Type) := EStateM Fault (Program α)

namespace ProgramM

variable {α β : Type}

def refuse (cause : ProgramError) : ProgramM α β := throw (.refused cause)

def abort : ProgramM α β := throw .aborted

def lift : Except Fault β → ProgramM α β
  | .ok b => pure b
  | .error fault => throw fault

/-- Asks the program a question that may be refused. -/
def ask (question : Program α → Except ProgramError β) : ProgramM α β := do
  lift (Fault.ofRefusal (question (← get)))

/-- Edits are refused while the matrices are lent. -/
def requireIdle : ProgramM α Unit := do
  if (← get).session.isSome then refuse .checkedOut

def setVariables (s : Store .var (Variable α)) : ProgramM α Unit :=
  modify fun p => { p with vars := s }

def setCones (s : Store .cone Cone) : ProgramM α Unit :=
  modify fun p => { p with cones := s }

def setConstraints (s : Store .constraint (Constraint α)) : ProgramM α Unit :=
  modify fun p => { p with constraints := s }

def updateVariable (v : VariableId) (f : Variable α → Variable α) : ProgramM α Unit := do
  setVariables (← ask (·.vars.update v f))

def updateConstraint (con : ConstraintId) (f : Constraint α → Constraint α) :
    ProgramM α Unit := do
  setConstraints (← ask (·.constraints.update con f))

/-- Reports a block, if reports are wanted. -/
def report (block : Program α → Except Fault (List Text)) : ProgramM α Unit := do
  let p ← get
  if p.settings.verbose then
    let text ← lift (block p)
    set { p with output := p.output.write text }

end ProgramM

end Socp
