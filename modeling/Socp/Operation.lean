import Socp.Learning.Expression
import Socp.Program.Graph
import Socp.Program.Loan
import Socp.Status

/-!
The operations that change a program, as data, so that a history of a program is a list.
-/

namespace Socp

inductive Operation (α : Type)
  | createOrthant
  | createSecondOrder (n : Nat)
  | createRotated (n : Nat)
  | createConstraint
  | deleteCone (id : ConeId)
  | deleteConstraint (id : ConstraintId)
  | addVariable (con : ConstraintId) (v : VariableId) (a : α)
  | setConstrainedValue (con : ConstraintId) (rhs : α)
  | setObjectiveCoefficient (v : VariableId) (c : α)
  | setPrimalValue (v : VariableId) (x : α)
  | setDualValue (v : VariableId) (s : α)
  | addToObjective (e : Expression α) (scale : α)
  | chooseSettings (choice : SettingsChoice α)
  | printTo (target : PrintTarget)
  | checkOut
  | checkIn
  | editLent (f : Matrices α → Matrices α)
  | solveWith (solver : Matrices α → Option SolverStatus × Matrices α)

/-- What an operation has to say when it succeeds. -/
inductive Answer
  | done
  | cone (id : ConeId)
  | constraint (id : ConstraintId)
  | status (s : SolverStatus)
deriving DecidableEq, Repr

namespace Operation

variable {α : Type} [Zero α] [Add α] [Mul α] [BEq α]

def perform : Operation α → ProgramM α Answer
  | .createOrthant => .cone <$> ProgramM.createOrthant
  | .createSecondOrder n => .cone <$> ProgramM.createSecondOrder n
  | .createRotated n => .cone <$> ProgramM.createRotated n
  | .createConstraint => .constraint <$> ProgramM.createConstraint
  | .deleteCone id => done (ProgramM.deleteCone id)
  | .deleteConstraint id => done (ProgramM.deleteConstraint id)
  | .addVariable con v a => done (ProgramM.addVariable con v a)
  | .setConstrainedValue con rhs => done (ProgramM.setConstrainedValue con rhs)
  | .setObjectiveCoefficient v c => done (ProgramM.setObjectiveCoefficient v c)
  | .setPrimalValue v x => done (ProgramM.setPrimalValue v x)
  | .setDualValue v s => done (ProgramM.setDualValue v s)
  | .addToObjective e scale => done (e.addToObjective scale)
  | .chooseSettings choice => done (ProgramM.chooseSettings choice)
  | .printTo target => done (modify (·.printTo target))
  | .checkOut => done ProgramM.checkOut
  | .checkIn => done ProgramM.checkIn
  | .editLent f => done (ProgramM.editLent fun M => ((), f M))
  | .solveWith solver => .status <$> ProgramM.solveWith solver
where
  done (operation : ProgramM α Unit) : ProgramM α Answer := do
    operation
    return .done

/-- Carries operations out one after the other; one that fails is passed over, and the next goes on
from the program as the failure left it. -/
def performAll (p : Program α) : List (Operation α) → Program α
  | [] => p
  | op :: rest =>
    match op.perform.run p with
    | .ok _ q => performAll q rest
    | .error _ q => performAll q rest

end Operation

end Socp
