import Socp.Cone

/-!
Why an operation on a program is refused. A cause lies either in the state that the program, or an
entity named in the call, is in, or in an argument that could never be accepted.
-/

namespace Socp

inductive ProgramError
  /-- The program is lent to a solver. -/
  | checkedOut
  | notCheckedOut
  | staleHandle (entity : Entity)
  | foreignHandle (entity : Entity)
  | badConeDimension (kind : ConeKind) (dim min : Nat)
  | coneKindMismatch (expected found : ConeKind)
deriving DecidableEq, Repr

namespace ProgramError

def message : ProgramError → String
  | .checkedOut => "Operation not permitted while matrices are checked out"
  | .notCheckedOut => "Matrices are not checked out"
  | .staleHandle entity => "Stale " ++ entity.name ++ " handle (entity was deleted)"
  | .foreignHandle entity => "The " ++ entity.name ++ " does not belong to this program"
  | .badConeDimension kind dim min =>
    kind.name ++ " requires dimension at least " ++ toString min ++ ", got " ++ toString dim
  | .coneKindMismatch expected found =>
    "Expected a " ++ expected.name ++ ", found a " ++ found.name

/-- The call could have succeeded in another state. -/
def isInvalidState : ProgramError → Bool
  | .checkedOut | .notCheckedOut | .staleHandle _ => true
  | _ => false

/-- The call could not have succeeded in any state. -/
def isInvalidArgument (e : ProgramError) : Bool := !e.isInvalidState

end ProgramError

/-- How an operation fails: it is refused for a cause, or a condition it relies on is broken and
it stops where it is. -/
inductive Fault
  | refused (cause : ProgramError)
  | aborted
deriving DecidableEq, Repr

namespace Fault

variable {β : Type}

def ofRefusal : Except ProgramError β → Except Fault β
  | .ok b => .ok b
  | .error cause => .error (.refused cause)

def ofOption : Option β → Except Fault β
  | some b => .ok b
  | none => .error .aborted

end Fault

end Socp
