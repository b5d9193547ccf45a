import Socp.Cone

/-!
The number of cones of each kind, kept up to date as cones come and go.
-/

namespace Socp

structure KindCounts where
  orthant : Nat
  secondOrder : Nat
  rotated : Nat
deriving DecidableEq, Repr

namespace KindCounts

def none : KindCounts := ⟨0, 0, 0⟩

def get (n : KindCounts) : ConeKind → Nat
  | .orthant => n.orthant
  | .secondOrder => n.secondOrder
  | .rotated => n.rotated

def set (n : KindCounts) (kind : ConeKind) (count : Nat) : KindCounts :=
  match kind with
  | .orthant => { n with orthant := count }
  | .secondOrder => { n with secondOrder := count }
  | .rotated => { n with rotated := count }

def increment (n : KindCounts) (kind : ConeKind) : KindCounts := n.set kind (n.get kind + 1)

/-- One cone less, defined if there is one. -/
def decrement? (n : KindCounts) (kind : ConeKind) : Option KindCounts :=
  if n.get kind = 0 then .none else some (n.set kind (n.get kind - 1))

@[simp] theorem get_none (kind : ConeKind) : none.get kind = 0 := by cases kind <;> rfl

theorem get_set (n : KindCounts) (kind other : ConeKind) (count : Nat) :
    (n.set kind count).get other = if other = kind then count else n.get other := by
  cases kind <;> cases other <;> rfl

end KindCounts

end Socp
