/-!
Handles name the entities of a program. A handle records the program that issued it, the place of
the entity in the order of creation, and a generation that ends when the entity is deleted. The
numbers have no bound here; a packed handle keeps them in words.
-/

namespace Socp

/-- The kinds of things a program is made of. -/
inductive Entity
  | var
  | cone
  | constraint
deriving DecidableEq, Repr

def Entity.name : Entity → String
  | .var => "variable"
  | .cone => "cone"
  | .constraint => "constraint"

structure Handle (k : Entity) where
  program : Nat
  slot : Nat
  generation : Nat
deriving DecidableEq, Repr

abbrev VariableId := Handle .var

abbrev ConeId := Handle .cone

abbrev ConstraintId := Handle .constraint

namespace Handle

variable {k : Entity}

/-- Handles order by program, then by creation. -/
instance : LT (Handle k) where
  lt a b :=
    a.program < b.program ∨
      a.program = b.program ∧
        (a.slot < b.slot ∨ a.slot = b.slot ∧ a.generation < b.generation)

theorem lt_def {a b : Handle k} :
    a < b ↔
      a.program < b.program ∨
        a.program = b.program ∧
          (a.slot < b.slot ∨ a.slot = b.slot ∧ a.generation < b.generation) :=
  Iff.rfl

instance : DecidableLT (Handle k) := fun a b => decidable_of_iff' _ (lt_def (a := a) (b := b))

theorem lt_irrefl (a : Handle k) : ¬a < a := by
  rw [lt_def]
  omega

theorem lt_trans {a b c : Handle k} (hab : a < b) (hbc : b < c) : a < c := by
  rw [lt_def] at *
  omega

theorem lt_trichotomy (a b : Handle k) : a < b ∨ a = b ∨ b < a := by
  cases a
  cases b
  simp only [lt_def, mk.injEq]
  omega

/-- Where the first handle stands to the second. -/
def order (a b : Handle k) : Ordering := if a < b then .lt else if a = b then .eq else .gt

end Handle

end Socp
