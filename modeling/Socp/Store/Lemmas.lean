import Socp.Store

/-!
What each operation on a store does to its slots, to look-ups and to the list of live entries.
-/

namespace Socp

namespace Store

variable {k : Entity} {β : Type}

@[simp] theorem program_empty (i : Nat) : (empty k β i).program = i := rfl

@[simp] theorem program_insert (s : Store k β) (v : β) : (s.insert v).2.program = s.program := rfl

@[simp] theorem program_mapValues (s : Store k β) (f : β → β) :
    (s.mapValues f).program = s.program := rfl

@[simp] theorem program_assign (s : Store k β) (slot : Nat) (v : Option β) :
    (s.assign slot v).program = s.program := by
  unfold assign
  split <;> rfl

theorem find_eq_ok_iff {s : Store k β} {h : Handle k} {v : β} :
    s.find h = .ok v ↔ h.program = s.program ∧ s.entryAt? h.slot = some (h.generation, v) := by
  unfold find
  split
  case isTrue hne => simp [hne]
  case isFalse heq =>
    rw [Decidable.not_not] at heq
    split
    case h_1 hnone => simp [hnone]
    case h_2 generation w hsome =>
      by_cases hg : generation = h.generation <;> simp [hg, heq, hsome]

theorem find_eq_foreign_iff {s : Store k β} {h : Handle k} :
    s.find h = .error (.foreignHandle k) ↔ h.program ≠ s.program := by
  unfold find
  split
  case isTrue hne => simp [hne]
  case isFalse heq =>
    rw [Decidable.not_not] at heq
    split
    · simp [heq]
    · split <;> simp [heq]

/-- A look-up fails in one of two ways. -/
theorem find_error {s : Store k β} {h : Handle k} {e : ProgramError} (he : s.find h = .error e) :
    e = .foreignHandle k ∧ h.program ≠ s.program ∨ e = .staleHandle k ∧ h.program = s.program := by
  unfold find at he
  split at he
  case isTrue hne =>
    cases he
    exact .inl ⟨rfl, hne⟩
  case isFalse heq =>
    rw [Decidable.not_not] at heq
    split at he
    · cases he
      exact .inr ⟨rfl, heq⟩
    · split at he
      · cases he
      · cases he
        exact .inr ⟨rfl, heq⟩

@[simp] theorem slots_insert (s : Store k β) (v : β) :
    (s.insert v).2.slots = s.slots.push ⟨0, some v⟩ := rfl

theorem entryAt?_insert (s : Store k β) (v : β) (slot : Nat) :
    (s.insert v).2.entryAt? slot =
      if slot = s.slots.size then some (0, v) else s.entryAt? slot := by
  simp only [entryAt?, slots_insert, Array.getElem?_push]
  split <;> rfl

theorem entryAt?_eq_none_of_le {s : Store k β} {slot : Nat} (h : s.slots.size ≤ slot) :
    s.entryAt? slot = none := by
  simp [entryAt?, Array.getElem?_eq_none h]

theorem find_insert_self (s : Store k β) (v : β) :
    (s.insert v).2.find (s.insert v).1 = .ok v := by
  refine find_eq_ok_iff.2 ⟨rfl, ?_⟩
  rw [entryAt?_insert]
  exact if_pos rfl

/-- An insertion disturbs no handle that was issued before. -/
theorem find_insert_of_lt {s : Store k β} {h : Handle k} (hlt : h.slot < s.slots.size) (v : β) :
    (s.insert v).2.find h = s.find h := by
  simp only [find, program_insert, entryAt?_insert, if_neg (Nat.ne_of_lt hlt)]

theorem entryAt?_assign {s : Store k β} {slot g : Nat} {old : β}
    (h : s.entryAt? slot = some (g, old)) (v : Option β) (other : Nat) :
    (s.assign slot v).entryAt? other =
      if other = slot then v.map fun w => (g, w) else s.entryAt? other := by
  simp only [entryAt?, Option.bind_eq_bind, Option.bind_eq_some_iff, Option.pure_def,
    Option.some.injEq, Prod.mk.injEq] at h
  obtain ⟨⟨generation, value⟩, hslot, w, hvalue, rfl, rfl⟩ := h
  simp only at hvalue
  subst hvalue
  have hlt : slot < s.slots.size := (Array.getElem?_eq_some_iff.1 hslot).1
  have hslots : (s.assign slot v).slots =
      s.slots.setIfInBounds slot ⟨if v.isSome then generation else generation + 1, v⟩ := by
    unfold assign
    split
    case h_1 hp =>
      rw [hslot] at hp
      cases hp
      rfl
    case h_2 hp => exact absurd hslot (hp _ _)
  simp only [entryAt?, hslots, Array.getElem?_setIfInBounds]
  by_cases ho : other = slot
  · subst ho
    cases v <;> simp [hlt]
  · simp [ho, Ne.symm ho]

theorem remove_eq_ok_iff {s t : Store k β} {h : Handle k} {v : β} :
    s.remove h = .ok (v, t) ↔ s.find h = .ok v ∧ t = s.assign h.slot none := by
  unfold remove
  cases s.find h with
  | error e => simp [bind, Except.bind]
  | ok w => simp [bind, Except.bind, pure, Except.pure, eq_comm]

/-- Removing an entry ends its handle. -/
theorem find_of_remove {s t : Store k β} {h : Handle k} {v : β} (hr : s.remove h = .ok (v, t)) :
    t.find h = .error (.staleHandle k) := by
  obtain ⟨hf, rfl⟩ := remove_eq_ok_iff.1 hr
  obtain ⟨hp, he⟩ := find_eq_ok_iff.1 hf
  simp [find, hp, entryAt?_assign he]

/-- Removing an entry disturbs no handle of another slot. -/
theorem find_of_remove_of_ne {s t : Store k β} {h other : Handle k} {v : β}
    (hr : s.remove h = .ok (v, t)) (hne : other.slot ≠ h.slot) : t.find other = s.find other := by
  obtain ⟨hf, rfl⟩ := remove_eq_ok_iff.1 hr
  obtain ⟨hp, he⟩ := find_eq_ok_iff.1 hf
  simp [find, entryAt?_assign he, hne]

theorem update_eq_ok_iff {s t : Store k β} {h : Handle k} {f : β → β} :
    s.update h f = .ok t ↔ ∃ v, s.find h = .ok v ∧ t = s.assign h.slot (some (f v)) := by
  unfold update
  cases s.find h with
  | error e => simp [bind, Except.bind]
  | ok w => simp [bind, Except.bind, pure, Except.pure, eq_comm]

theorem find_of_update {s t : Store k β} {h : Handle k} {f : β → β}
    (hu : s.update h f = .ok t) (other : Handle k) :
    t.find other = if other = h then (s.find h).map f else s.find other := by
  obtain ⟨v, hf, rfl⟩ := update_eq_ok_iff.1 hu
  obtain ⟨hp, he⟩ := find_eq_ok_iff.1 hf
  by_cases ho : other = h
  · subst ho
    rw [if_pos rfl, hf]
    simp [find_eq_ok_iff, hp, entryAt?_assign he, Except.map]
  · rw [if_neg ho]
    simp only [find, program_assign, entryAt?_assign he]
    by_cases hs : other.slot = h.slot
    · by_cases hop : other.program = s.program
      · have hg : h.generation ≠ other.generation := fun hg =>
          ho (by
            cases other
            cases h
            simp_all)
        simp [hs, hop, he, hg]
      · simp [hop]
    · simp [hs]

theorem entryAt?_mapValues (s : Store k β) (f : β → β) (slot : Nat) :
    (s.mapValues f).entryAt? slot = (s.entryAt? slot).map fun entry => (entry.1, f entry.2) := by
  simp only [entryAt?, mapValues, Array.getElem?_map]
  rcases s.slots[slot]? with _ | ⟨generation, _ | v⟩ <;> rfl

theorem find_mapValues (s : Store k β) (f : β → β) (h : Handle k) :
    (s.mapValues f).find h = (s.find h).map f := by
  simp only [find, program_mapValues, entryAt?_mapValues]
  split
  · rfl
  · rcases s.entryAt? h.slot with _ | ⟨generation, v⟩
    · rfl
    · simp only [Option.map_some]
      split <;> rfl

theorem toList_insert (s : Store k β) (v : β) :
    (s.insert v).2.toList = s.toList ++ [(s.nextHandle, v)] := by
  simp [toList, List.zipIdx_append, nextHandle, entryOf?]

theorem length_filterMap_entryOf? (program : Nat) (places : List (Slot β)) (n : Nat) :
    ((places.zipIdx n).filterMap (entryOf? (k := k) program)).length =
      places.countP Slot.isLive := by
  induction places generalizing n with
  | nil => rfl
  | cons place places ih =>
    rw [List.zipIdx_cons, List.countP_cons]
    rcases place with ⟨generation, _ | v⟩
    · rw [List.filterMap_cons_none rfl, ih]
      rfl
    · have hv : entryOf? (k := k) program (⟨generation, some v⟩, n) =
          some (⟨program, n, generation⟩, v) := rfl
      rw [List.filterMap_cons_some hv, List.length_cons, ih]
      rfl

theorem length_toList (s : Store k β) : s.toList.length = s.size := by
  rw [toList, length_filterMap_entryOf?, size, s.live_eq, Array.countP_toList]

end Store

end Socp
