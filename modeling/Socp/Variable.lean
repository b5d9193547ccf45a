import Socp.Handle

/-!
A scalar variable. It is created and deleted with the cone that owns it.
-/

namespace Socp

structure Variable (α : Type) where
  primal : α
  dual : α
  objective : α
  cone : ConeId
deriving BEq

def Variable.blank {α : Type} [Zero α] (cone : ConeId) : Variable α := ⟨0, 0, 0, cone⟩

end Socp
