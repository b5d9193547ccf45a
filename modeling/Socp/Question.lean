import Socp.Learning.Expression
import Socp.Program.Loan
import Socp.Program.Residual

/-!
The questions that can be put to a program, as data. Each kind of question has its own kind of
reply.
-/

namespace Socp

inductive Question (α : Type)
  | findVariable (v : VariableId)
  | findCone (id : ConeId)
  | findConstraint (con : ConstraintId)
  | findOrthant (id : ConeId)
  | findSecondOrder (id : ConeId)
  | findRotated (id : ConeId)
  | variableCount
  | coneCount
  | constraintCount
  | kindCount (kind : ConeKind)
  | listVariables
  | listCones
  | listConstraints
  | conesOfKind (kind : ConeKind)
  | isCheckedOut
  | columnOf (v : VariableId)
  | rowOf (con : ConstraintId)
  | lentMatrices
  | constraintResidual (con : ConstraintId)
  | coneResidual (id : ConeId)
  | primalResidual
  | isPrimalFeasible
  | objectiveValue
  | evaluate (e : Expression α)
  | settings
  | printed

namespace Question

variable {α : Type}

/-- What a reply to the question is, if there is one. -/
def Reply : Question α → Type
  | .findVariable _ => Variable α
  | .findCone _ => Cone
  | .findConstraint _ => Constraint α
  | .findOrthant _ => VariableId
  | .findSecondOrder _ => List VariableId × VariableId
  | .findRotated _ => (VariableId × VariableId) × List VariableId
  | .variableCount | .coneCount | .constraintCount | .kindCount _ => Nat
  | .listVariables => List (VariableId × Variable α)
  | .listCones | .conesOfKind _ => List (ConeId × Cone)
  | .listConstraints => List (ConstraintId × Constraint α)
  | .isCheckedOut | .isPrimalFeasible => Bool
  | .columnOf _ | .rowOf _ => Nat
  | .lentMatrices => Matrices α
  | .constraintResidual _ | .coneResidual _ | .primalResidual | .objectiveValue | .evaluate _ => α
  | .settings => Settings α
  | .printed => Except OutputError Text

def answer [Scalar α] (p : Program α) : (question : Question α) → Except Fault question.Reply
  | .findVariable v => Fault.ofRefusal (p.findVariable v)
  | .findCone id => Fault.ofRefusal (p.findCone id)
  | .findConstraint con => Fault.ofRefusal (p.findConstraint con)
  | .findOrthant id => Fault.ofRefusal (p.findOrthant id)
  | .findSecondOrder id => Fault.ofRefusal (p.findSecondOrder id)
  | .findRotated id => Fault.ofRefusal (p.findRotated id)
  | .variableCount => .ok p.variableCount
  | .coneCount => .ok p.coneCount
  | .constraintCount => .ok p.constraintCount
  | .kindCount kind => .ok (p.kindCount kind)
  | .listVariables => .ok p.vars.toList
  | .listCones => .ok p.cones.toList
  | .listConstraints => .ok p.constraints.toList
  | .conesOfKind kind => .ok (p.conesOfKind kind)
  | .isCheckedOut => .ok p.isCheckedOut
  | .columnOf v => Fault.ofRefusal (p.columnOf v)
  | .rowOf con => Fault.ofRefusal (p.rowOf con)
  | .lentMatrices => Fault.ofRefusal p.lentMatrices
  | .constraintResidual con => Fault.ofRefusal (p.constraintResidual con)
  | .coneResidual id => p.coneResidual id
  | .primalResidual => p.primalResidual
  | .isPrimalFeasible => p.isPrimalFeasible
  | .objectiveValue => .ok p.objectiveValue
  | .evaluate e => Fault.ofRefusal (e.evaluate p)
  | .settings => .ok p.settings
  | .printed => .ok p.output.buffered

/-- Puts the question to the program that is being worked on. -/
def ask [Scalar α] (question : Question α) : ProgramM α question.Reply := do
  ProgramM.lift (question.answer (← get))

end Question

end Socp
