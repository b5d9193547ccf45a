import Socp.Proofs.Store.Batch

/-!
How a store stands to a handle: whether it accepts it, why it does not, and how many handles it has
issued. Replacing values changes none of this; an insertion adds a handle that was never issued, and
a removal turns handles stale for good.
-/

namespace Socp

namespace Store

variable {k : Entity} {β : Type}

def complaint? (s : Store k β) (h : Handle k) : Option ProgramError :=
  match s.find h with
  | .ok _ => none
  | .error cause => some cause

theorem complaint?_eq_some_iff {s : Store k β} {h : Handle k} {cause : ProgramError} :
    s.complaint? h = some cause ↔ s.find h = .error cause := by
  unfold complaint?
  split <;> simp_all

theorem complaint?_eq_none_iff {s : Store k β} {h : Handle k} :
    s.complaint? h = none ↔ ∃ v, s.find h = .ok v := by
  unfold complaint?
  split <;> simp_all

theorem complaint?_eq_none_iff_mem {s : Store k β} {h : Handle k} :
    s.complaint? h = none ↔ h ∈ s.handles :=
  complaint?_eq_none_iff.trans mem_handles_iff.symm

theorem complaint?_cases (s : Store k β) (h : Handle k) :
    s.complaint? h = some (.foreignHandle k) ∧ h.program ≠ s.program ∨
      s.complaint? h = some (.staleHandle k) ∧ h.program = s.program ∨
        s.complaint? h = none ∧ h.program = s.program := by
  cases hf : s.find h with
  | ok v => exact .inr (.inr ⟨complaint?_eq_none_iff.2 ⟨v, hf⟩, program_of_find hf⟩)
  | error cause =>
      rcases find_error hf with ⟨rfl, hp⟩ | ⟨rfl, hp⟩
      · exact .inl ⟨complaint?_eq_some_iff.2 hf, hp⟩
      · exact .inr (.inl ⟨complaint?_eq_some_iff.2 hf, hp⟩)

/-! ### Which handles there are, and how many there have been -/

theorem handles_insert (s : Store k β) (v : β) :
    (s.insert v).2.handles = s.handles ++ [s.nextHandle] := by
  simp [handles, toList_insert]

theorem toList_mapValues (s : Store k β) (f : β → β) :
    (s.mapValues f).toList = s.toList.map fun e => (e.1, f e.2) := by
  refine toList_eq_of_sorted (List.pairwise_map.2 s.toList_sorted) ?_
  intro h v
  rw [find_mapValues, List.mem_map]
  constructor
  · intro hv
    cases hf : s.find h with
    | error e =>
        rw [hf] at hv
        cases hv
    | ok w =>
        rw [hf] at hv
        cases hv
        exact ⟨(h, w), mem_toList_iff.2 hf, rfl⟩
  · rintro ⟨⟨g, w⟩, hmem, heq⟩
    cases heq
    rw [mem_toList_iff.1 hmem]
    rfl

@[simp] theorem handles_mapValues (s : Store k β) (f : β → β) :
    (s.mapValues f).handles = s.handles := by
  rw [handles, toList_mapValues, List.map_map]
  rfl

@[simp] theorem size_slots_mapValues (s : Store k β) (f : β → β) :
    (s.mapValues f).slots.size = s.slots.size := by
  simp [mapValues]

@[simp] theorem size_slots_assign (s : Store k β) (slot : Nat) (v : Option β) :
    (s.assign slot v).slots.size = s.slots.size := by
  unfold assign
  split <;> simp

@[simp] theorem size_slots_adjust (s : Store k β) (h : Handle k) (f : β → β) :
    (s.adjust h f).slots.size = s.slots.size := by
  unfold adjust
  split <;> simp

@[simp] theorem size_slots_adjustAll (s : Store k β) (l : List (Handle k × (β → β))) :
    (s.adjustAll l).slots.size = s.slots.size := by
  induction l generalizing s with
  | nil => rfl
  | cons t l ih => rw [adjustAll_cons, ih, size_slots_adjust]

@[simp] theorem program_adjustAll (s : Store k β) (l : List (Handle k × (β → β))) :
    (s.adjustAll l).program = s.program := by
  induction l generalizing s with
  | nil => rfl
  | cons t l ih => rw [adjustAll_cons, ih, program_adjust]

@[simp] theorem size_slots_clear (s : Store k β) (hs : List (Handle k)) :
    (s.clear hs).slots.size = s.slots.size := by
  induction hs generalizing s with
  | nil => rfl
  | cons h hs ih => rw [clear_cons, ih, size_slots_assign]

@[simp] theorem size_slots_insertCopies (s : Store k β) (v : β) (n : Nat) :
    (s.insertCopies v n).2.slots.size = s.slots.size + n := by
  induction n generalizing s with
  | zero => rfl
  | succ n ih =>
      show ((s.insert v).2.insertCopies v n).2.slots.size = _
      rw [ih, slots_insert, Array.size_push]
      omega

end Store

end Socp
