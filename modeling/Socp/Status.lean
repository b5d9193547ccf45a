/-!
What a solver reports when it ends.
-/

namespace Socp

inductive SolverStatus
  /-- The solver has not run. -/
  | unsolved
  | solved
  | primalInfeasible
  | dualInfeasible
  /-- Solved with reduced accuracy. -/
  | almostSolved
  | maxIterations
  | maxTime
  | numericalError
  | insufficientProgress
deriving DecidableEq, Repr

namespace SolverStatus

instance : Inhabited SolverStatus := ⟨unsolved⟩

/-- All reports, in the order of their codes. -/
def all : List SolverStatus :=
  [unsolved, solved, primalInfeasible, dualInfeasible, almostSolved, maxIterations, maxTime,
    numericalError, insufficientProgress]

def code (s : SolverStatus) : Nat := s.ctorIdx

def name : SolverStatus → String
  | unsolved => "Unsolved"
  | solved => "Solved"
  | primalInfeasible => "PrimalInfeasible"
  | dualInfeasible => "DualInfeasible"
  | almostSolved => "AlmostSolved"
  | maxIterations => "MaxIterations"
  | maxTime => "MaxTime"
  | numericalError => "NumericalError"
  | insufficientProgress => "InsufficientProgress"

def isInfeasible : SolverStatus → Bool
  | primalInfeasible | dualInfeasible => true
  | _ => false

def isErrored : SolverStatus → Bool
  | numericalError | insufficientProgress => true
  | _ => false

theorem getElem?_all_code (s : SolverStatus) : all[s.code]? = some s := by cases s <;> rfl

end SolverStatus

end Socp
