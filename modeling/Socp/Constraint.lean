import Socp.Terms

/-!
A linear equation `∑ a_j x_j = b` between variables, and its multiplier.
-/

namespace Socp

structure Constraint (α : Type) where
  terms : Terms α
  rhs : α
  dual : α
deriving BEq

namespace Constraint

variable {α : Type}

def blank [Zero α] : Constraint α := ⟨.empty, 0, 0⟩

def coefficient (c : Constraint α) (v : VariableId) : Option α := c.terms.get? v

/-- Stores a coefficient. A zero takes the term out if zeros are not kept. -/
def setTerm [Zero α] [BEq α] (c : Constraint α) (v : VariableId) (a : α) (dropZeros : Bool) :
    Constraint α :=
  { c with terms := if dropZeros && a == 0 then c.terms.erase v else c.terms.insert v a }

def eraseTerm (c : Constraint α) (v : VariableId) : Constraint α :=
  { c with terms := c.terms.erase v }

end Constraint

end Socp
