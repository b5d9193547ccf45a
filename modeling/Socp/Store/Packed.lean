import Socp.Store

/-!
Handles and stores as they lie in memory. The program, the slot and the generation of a handle are
words of 32 bits, and a number that does not fit into a word begins again at 0. A store keeps its
slots under their true numbers and hands out the words.
-/

namespace Socp

structure PackedHandle (k : Entity) where
  program : UInt32
  slot : UInt32
  generation : UInt32
deriving DecidableEq, Repr

def Handle.pack {k : Entity} (h : Handle k) : PackedHandle k :=
  ⟨.ofNat h.program, .ofNat h.slot, .ofNat h.generation⟩

namespace PackedHandle

variable {k : Entity}

/-- Words compare as the numbers in a handle do. -/
instance : LT (PackedHandle k) where
  lt a b :=
    a.program < b.program ∨
      a.program = b.program ∧
        (a.slot < b.slot ∨ a.slot = b.slot ∧ a.generation < b.generation)

/-- The handle that has exactly these numbers. -/
def unpack (w : PackedHandle k) : Handle k :=
  ⟨w.program.toNat, w.slot.toNat, w.generation.toNat⟩

end PackedHandle

structure PackedSlot (β : Type) where
  generation : UInt32
  value : Option β

def Slot.pack {β : Type} (place : Slot β) : PackedSlot β := ⟨.ofNat place.generation, place.value⟩

structure PackedStore (k : Entity) (β : Type) where
  program : UInt32
  slots : Array (PackedSlot β)

/-- A store with its numbers cut to words. -/
def Store.pack {k : Entity} {β : Type} (s : Store k β) : PackedStore k β :=
  ⟨.ofNat s.program, s.slots.map Slot.pack⟩

namespace PackedStore

variable {k : Entity} {β : Type}

def empty (k : Entity) (β : Type) (program : UInt32) : PackedStore k β := ⟨program, #[]⟩

def nextHandle (s : PackedStore k β) : PackedHandle k := ⟨s.program, .ofNat s.slots.size, 0⟩

def insert (s : PackedStore k β) (v : β) : PackedHandle k × PackedStore k β :=
  (s.nextHandle, { s with slots := s.slots.push ⟨0, some v⟩ })

/-- The slot of the live entry that a handle names. -/
def slotOf (s : PackedStore k β) (w : PackedHandle k) : Except ProgramError Nat :=
  if w.program ≠ s.program then .error (.foreignHandle k)
  else match s.slots[w.slot.toNat]? with
    | some place =>
      if place.generation = w.generation ∧ place.value.isSome then .ok w.slot.toNat
      else .error (.staleHandle k)
    | none => .error (.staleHandle k)

def valueAt (s : PackedStore k β) (slot : Nat) : Except ProgramError β :=
  match s.slots[slot]?.bind (·.value) with
  | some v => .ok v
  | none => .error (.staleHandle k)

def check (s : PackedStore k β) (w : PackedHandle k) : Except ProgramError Unit := do
  let _ ← s.slotOf w

def find (s : PackedStore k β) (w : PackedHandle k) : Except ProgramError β := do
  s.valueAt (← s.slotOf w)

def update (s : PackedStore k β) (w : PackedHandle k) (f : β → β) :
    Except ProgramError (PackedStore k β) := do
  let slot ← s.slotOf w
  let v ← s.valueAt slot
  return { s with slots := s.slots.modify slot fun place => { place with value := some (f v) } }

/-- Takes out the entry that a handle names and ends the generation of its slot. -/
def remove (s : PackedStore k β) (w : PackedHandle k) :
    Except ProgramError (β × PackedStore k β) := do
  let slot ← s.slotOf w
  let v ← s.valueAt slot
  return (v, { s with slots := s.slots.modify slot fun place => ⟨place.generation + 1, none⟩ })

def mapValues (s : PackedStore k β) (f : β → β) : PackedStore k β :=
  { s with slots := s.slots.map fun place => { place with value := place.value.map f } }

def entryOf? (program : UInt32) (place : PackedSlot β × Nat) : Option (PackedHandle k × β) :=
  place.1.value.map fun v => (⟨program, .ofNat place.2, place.1.generation⟩, v)

/-- The live entries with their handles, in the order of creation. -/
def toList (s : PackedStore k β) : List (PackedHandle k × β) :=
  s.slots.toList.zipIdx.filterMap (entryOf? s.program)

def handles (s : PackedStore k β) : List (PackedHandle k) := s.toList.map (·.1)

end PackedStore

end Socp
