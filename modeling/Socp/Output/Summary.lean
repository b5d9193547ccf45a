import Socp.Cone
import Socp.Output.Stream

/-!
The reports on lending the matrices and on taking them back. A block is a list of pieces, in which
fixed wording and inserted values alternate.
-/

namespace Socp

/-- The version that a report announces. -/
def productVersion : String := "0.3.0"

structure CheckoutFigures where
  vars : Nat
  constraints : Nat
  matrixEntries : Nat
  objectiveEntries : Nat
  /-- The number of cones of each kind, in the order they are listed. -/
  cones : List (ConeKind × Nat)

namespace Summary

def line (label value : String) : List String := [label, value, "\n"]

def coneLine (kind : ConeKind) (count : Nat) : List String :=
  if 0 < count then ["    : ", kind.name, " = ", toString count, "\n"] else []

def checkout (f : CheckoutFigures) : List Text :=
  let pieces :=
    ["checkout: conic program (conicprog v", productVersion, ")\n"] ++
    line "  variables     = " (toString f.vars) ++
    line "  constraints   = " (toString f.constraints) ++
    line "  nnz(A)        = " (toString f.matrixEntries) ++
    line "  nnz(c)        = " (toString f.objectiveEntries) ++
    line "  cones (total) = " (toString (f.cones.foldl (fun total entry => total + entry.2) 0)) ++
    f.cones.flatMap fun (kind, count) => coneLine kind count
  pieces.map String.toList

def checkin (columns rows : Nat) : List Text :=
  ["checkin:  reconciled ", toString columns, " variables and ", toString rows,
    " constraints\n"].map String.toList

end Summary

end Socp
