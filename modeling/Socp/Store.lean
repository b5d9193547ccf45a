import Socp.Error

/-!
Storage under handles. Entries are only ever added at the end; deleting one empties its slot and
moves the slot to the next generation, so its handle is never valid again and no other handle is
disturbed.
-/

namespace Socp

structure Slot (β : Type) where
  generation : Nat
  value : Option β

def Slot.isLive {β : Type} (s : Slot β) : Bool := s.value.isSome

/-- The entries of one kind that belong to one program. -/
structure Store (k : Entity) (β : Type) where
  program : Nat
  slots : Array (Slot β)
  live : Nat
  live_eq : live = slots.countP Slot.isLive

namespace Store

variable {k : Entity} {β : Type}

def empty (k : Entity) (β : Type) (program : Nat) : Store k β := ⟨program, #[], 0, rfl⟩

def size (s : Store k β) : Nat := s.live

/-- The handle that the next insertion issues. -/
def nextHandle (s : Store k β) : Handle k := ⟨s.program, s.slots.size, 0⟩

def insert (s : Store k β) (v : β) : Handle k × Store k β :=
  (s.nextHandle, {
    program := s.program
    slots := s.slots.push ⟨0, some v⟩
    live := s.live + 1
    live_eq := by simp [s.live_eq, Array.countP_push, Slot.isLive] })

def insertCopies (s : Store k β) (v : β) : Nat → List (Handle k) × Store k β
  | 0 => ([], s)
  | n + 1 =>
    let (h, s) := s.insert v
    let (hs, s) := s.insertCopies v n
    (h :: hs, s)

/-- The live entry in a slot, with the generation it carries. -/
def entryAt? (s : Store k β) (slot : Nat) : Option (Nat × β) := do
  let place ← s.slots[slot]?
  let v ← place.value
  return (place.generation, v)

/-- The live entry that a handle names. -/
def find (s : Store k β) (h : Handle k) : Except ProgramError β :=
  if h.program ≠ s.program then .error (.foreignHandle k)
  else match s.entryAt? h.slot with
    | none => .error (.staleHandle k)
    | some (generation, v) =>
      if generation = h.generation then .ok v else .error (.staleHandle k)

/-- Puts a new value into an occupied slot; `none` empties the slot and ends its generation. -/
def assign (s : Store k β) (slot : Nat) (v : Option β) : Store k β :=
  match hp : s.slots[slot]? with
  | some ⟨generation, some old⟩ =>
    { program := s.program
      slots := s.slots.setIfInBounds slot ⟨if v.isSome then generation else generation + 1, v⟩
      live := if v.isSome then s.live else s.live - 1
      live_eq := by
        obtain ⟨hlt, hget⟩ := Array.getElem?_eq_some_iff.1 hp
        have hlive : Slot.isLive s.slots[slot] = true := by simp [hget, Slot.isLive]
        have hpos : 0 < s.slots.countP Slot.isLive :=
          Array.countP_pos_iff.2 ⟨_, Array.getElem_mem hlt, hlive⟩
        rw [Array.setIfInBounds, dif_pos hlt, Array.countP_set, if_pos hlive, ← s.live_eq]
        rw [← s.live_eq] at hpos
        cases v with
        | none => simp [Slot.isLive]
        | some w =>
          simp only [Slot.isLive, Option.isSome_some, if_true]
          omega }
  | _ => s

/-- Replaces the entry that a handle names. -/
def update (s : Store k β) (h : Handle k) (f : β → β) : Except ProgramError (Store k β) := do
  let v ← s.find h
  return s.assign h.slot (some (f v))

def remove (s : Store k β) (h : Handle k) : Except ProgramError (β × Store k β) := do
  let v ← s.find h
  return (v, s.assign h.slot none)

def mapValues (s : Store k β) (f : β → β) : Store k β where
  program := s.program
  slots := s.slots.map fun place => ⟨place.generation, place.value.map f⟩
  live := s.live
  live_eq := by
    rw [s.live_eq, Array.countP_map]
    congr 1
    funext place
    simp [Slot.isLive]

/-- The live entry in a numbered slot, with its handle. -/
def entryOf? (program : Nat) (place : Slot β × Nat) : Option (Handle k × β) :=
  place.1.value.map fun v => (⟨program, place.2, place.1.generation⟩, v)

/-- The live entries with their handles, in the order of creation. -/
def toList (s : Store k β) : List (Handle k × β) :=
  s.slots.toList.zipIdx.filterMap (entryOf? s.program)

def handles (s : Store k β) : List (Handle k) := s.toList.map (·.1)

def values (s : Store k β) : List β := s.toList.map (·.2)

/-- The handle that was issued for a slot, live or not. -/
def issued? (s : Store k β) (slot : Nat) : Option (Handle k) :=
  if slot < s.slots.size then some ⟨s.program, slot, 0⟩ else none

end Store

end Socp
