import Socp.Proofs.Lists
import Socp.Store.Lemmas

/-!
The list of live entries as the view of a store. It is sorted by slot and holds exactly what
look-up finds, so it determines the answers of a store; each operation on the store is an operation
on the list.
-/

namespace Socp

namespace Store

variable {k : Entity} {β : Type}

theorem entryAt?_eq_some_iff {s : Store k β} {slot g : Nat} {v : β} :
    s.entryAt? slot = some (g, v) ↔ s.slots[slot]? = some ⟨g, some v⟩ := by
  constructor
  · intro h
    obtain ⟨⟨g', value⟩, hslot, hrest⟩ := Option.bind_eq_some_iff.1 h
    obtain ⟨w, hvalue, hpair⟩ := Option.bind_eq_some_iff.1 hrest
    simp only at hvalue
    subst hvalue
    cases hpair
    exact hslot
  · intro h
    simp [entryAt?, h]

theorem mem_toList_iff {s : Store k β} {h : Handle k} {v : β} :
    (h, v) ∈ s.toList ↔ s.find h = .ok v := by
  rw [find_eq_ok_iff, entryAt?_eq_some_iff]
  simp only [toList, List.mem_filterMap]
  constructor
  · rintro ⟨⟨⟨g, value⟩, slot⟩, hmem, hentry⟩
    rw [List.mem_zipIdx_iff_getElem?, Array.getElem?_toList] at hmem
    obtain ⟨w, hw, hpair⟩ := Option.map_eq_some_iff.1 hentry
    simp only at hw
    subst hw
    cases hpair
    exact ⟨rfl, hmem⟩
  · rintro ⟨hp, hslot⟩
    refine ⟨(⟨h.generation, some v⟩, h.slot), ?_, ?_⟩
    · rw [List.mem_zipIdx_iff_getElem?, Array.getElem?_toList]
      exact hslot
    · simp [entryOf?, ← hp]

theorem mem_handles_iff {s : Store k β} {h : Handle k} :
    h ∈ s.handles ↔ ∃ v, s.find h = .ok v := by
  simp [handles, ← mem_toList_iff]

theorem mem_values_iff {s : Store k β} {v : β} : v ∈ s.values ↔ ∃ h, s.find h = .ok v := by
  simp [values, ← mem_toList_iff]

theorem program_of_find {s : Store k β} {h : Handle k} {v : β} (hf : s.find h = .ok v) :
    h.program = s.program :=
  (find_eq_ok_iff.1 hf).1

theorem toList_sorted (s : Store k β) :
    s.toList.Pairwise fun a b => a.1.slot < b.1.slot := by
  refine List.Pairwise.filterMap _ ?_ (pairwise_zipIdx s.slots.toList)
  intro a b hab c hc d hd
  obtain ⟨v, -, rfl⟩ := Option.map_eq_some_iff.1 hc
  obtain ⟨w, -, rfl⟩ := Option.map_eq_some_iff.1 hd
  exact hab

/-- A list sorted by slot is the list of live entries if it has the same members. -/
theorem toList_eq_of_sorted {s : Store k β} {l : List (Handle k × β)}
    (hl : l.Pairwise fun a b => a.1.slot < b.1.slot)
    (hmem : ∀ h v, s.find h = .ok v ↔ (h, v) ∈ l) : s.toList = l := by
  refine eq_of_pairwise_of_mem_iff (fun a b => Nat.lt_asymm) s.toList_sorted hl ?_
  rintro ⟨h, v⟩
  rw [mem_toList_iff]
  exact hmem h v

theorem handles_slots_sorted (s : Store k β) :
    s.handles.Pairwise fun a b => a.slot < b.slot :=
  List.pairwise_map.2 s.toList_sorted

theorem handles_sorted (s : Store k β) : s.handles.Pairwise (· < ·) := by
  refine s.handles_slots_sorted.imp_of_mem ?_
  intro a b ha hb hab
  obtain ⟨v, hv⟩ := mem_handles_iff.1 ha
  obtain ⟨w, hw⟩ := mem_handles_iff.1 hb
  exact .inr ⟨(program_of_find hv).trans (program_of_find hw).symm, .inl hab⟩

theorem handles_nodup (s : Store k β) : s.handles.Nodup := by
  refine s.handles_slots_sorted.imp ?_
  intro a b hab heq
  exact Nat.lt_irrefl _ (heq ▸ hab)

@[simp] theorem length_handles (s : Store k β) : s.handles.length = s.size := by
  rw [handles, List.length_map, length_toList]

theorem handles_eq_nil_of_size {s : Store k β} (hsize : s.size = 0) : s.handles = [] := by
  rwa [← List.length_eq_zero_iff, length_handles]

@[simp] theorem length_values (s : Store k β) : s.values.length = s.size := by
  rw [values, List.length_map, length_toList]

theorem mapM_find_handles (s : Store k β) : s.handles.mapM s.find = .ok s.values := by
  rw [handles, List.mapM_map]
  exact mapM_eq_pure fun e he => mem_toList_iff.1 he

theorem getElem?_values_of_handles {s : Store k β} {i : Nat} {h : Handle k} {v : β}
    (hi : s.handles[i]? = some h) (hf : s.find h = .ok v) : s.values[i]? = some v := by
  rw [handles, List.getElem?_map, Option.map_eq_some_iff] at hi
  obtain ⟨⟨h', v'⟩, hget, rfl⟩ := hi
  have hv := mem_toList_iff.1 (List.mem_of_getElem? hget)
  rw [hf] at hv
  cases hv
  rw [values, List.getElem?_map, hget, Option.map_some]

theorem exists_handle_of_values {s : Store k β} {i : Nat} {v : β} (hv : s.values[i]? = some v) :
    ∃ h, s.handles[i]? = some h ∧ s.find h = .ok v := by
  rw [values, List.getElem?_map, Option.map_eq_some_iff] at hv
  obtain ⟨⟨h, w⟩, hget, rfl⟩ := hv
  refine ⟨h, ?_, mem_toList_iff.1 (List.mem_of_getElem? hget)⟩
  rw [handles, List.getElem?_map, hget, Option.map_some]

/-! ### Assignment -/

theorem find_assign {s : Store k β} {h : Handle k} {old : β} (hf : s.find h = .ok old)
    (v : Option β) (other : Handle k) :
    (s.assign h.slot v).find other =
      if other = h then v.elim (.error (.staleHandle k)) .ok else s.find other := by
  cases v with
  | none =>
      have hr : s.remove h = .ok (old, s.assign h.slot none) := remove_eq_ok_iff.2 ⟨hf, rfl⟩
      by_cases ho : other = h
      · rw [if_pos ho, ho]
        exact find_of_remove hr
      · rw [if_neg ho]
        by_cases hs : other.slot = h.slot
        · -- another handle of the slot, from another program or of another generation
          obtain ⟨hp, he⟩ := find_eq_ok_iff.1 hf
          by_cases hop : other.program = s.program
          · have hg : h.generation ≠ other.generation := by
              intro hg
              apply ho
              cases other
              cases h
              simp_all
            simp [find, hop, hs, entryAt?_assign he, he, hg]
          · simp [find, hop]
        · exact find_of_remove_of_ne hr hs
  | some w =>
      have hu : s.update h (fun _ => w) = .ok (s.assign h.slot (some w)) :=
        update_eq_ok_iff.2 ⟨old, hf, rfl⟩
      rw [find_of_update hu]
      simp [hf, Except.map]

theorem remove_eq_error {s : Store k β} {h : Handle k} {e : ProgramError}
    (hf : s.find h = .error e) : s.remove h = .error e := by
  rw [remove, hf]
  rfl

theorem toList_assign_none {s : Store k β} {h : Handle k} {old : β} (hf : s.find h = .ok old) :
    (s.assign h.slot none).toList = s.toList.filter fun e => e.1 ≠ h := by
  refine toList_eq_of_sorted (s.toList_sorted.filter _) ?_
  intro g v
  rw [List.mem_filter, mem_toList_iff, find_assign hf]
  by_cases hg : g = h <;> simp [hg]

theorem exists_toList_eq {s : Store k β} {h : Handle k} {v : β} (hf : s.find h = .ok v) :
    ∃ before after, s.toList = before ++ (h, v) :: after ∧ ∀ e ∈ before ++ after, e.1 ≠ h := by
  obtain ⟨before, after, hl⟩ := List.append_of_mem (mem_toList_iff.2 hf)
  refine ⟨before, after, hl, ?_⟩
  have hsorted := s.toList_sorted
  rw [hl, List.pairwise_append, List.pairwise_cons] at hsorted
  obtain ⟨-, ⟨hafter, -⟩, hbefore⟩ := hsorted
  rintro e he rfl
  rcases List.mem_append.1 he with he | he
  · exact Nat.lt_irrefl _ (hbefore e he (e.1, v) List.mem_cons_self)
  · exact Nat.lt_irrefl _ (hafter e he)

/-- Removing an entry cuts it out of the list. -/
theorem toList_cut {s : Store k β} {h : Handle k} {old : β} (hf : s.find h = .ok old) :
    ∃ before after, s.toList = before ++ (h, old) :: after ∧
      (s.assign h.slot none).toList = before ++ after := by
  obtain ⟨before, after, hl, hkeep⟩ := exists_toList_eq hf
  refine ⟨before, after, hl, ?_⟩
  rw [toList_assign_none hf, hl, List.filter_append, List.filter_cons_of_neg (by simp),
    ← List.filter_append, List.filter_eq_self]
  intro e he
  simpa using hkeep e he

theorem toList_assign_some {s : Store k β} {h : Handle k} {old : β} (hf : s.find h = .ok old)
    (v : β) :
    (s.assign h.slot (some v)).toList =
      s.toList.map fun e => if e.1 = h then (h, v) else e := by
  refine toList_eq_of_sorted ?_ ?_
  · rw [List.pairwise_map]
    refine s.toList_sorted.imp ?_
    intro a b hab
    split <;> split <;> simp_all
  · intro g w
    rw [find_assign hf, List.mem_map]
    by_cases hg : g = h
    · subst hg
      simp only [if_pos, Option.elim_some, Except.ok.injEq]
      constructor
      · rintro rfl
        exact ⟨(g, old), mem_toList_iff.2 hf, by simp⟩
      · rintro ⟨e, -, he⟩
        split at he <;> simp_all
    · rw [if_neg hg, ← mem_toList_iff]
      constructor
      · intro hmem
        exact ⟨(g, w), hmem, by simp [hg]⟩
      · rintro ⟨e, hmem, he⟩
        split at he
        · cases he
          exact absurd rfl hg
        · exact he ▸ hmem

theorem handles_assign_none {s : Store k β} {h : Handle k} {old : β} (hf : s.find h = .ok old) :
    (s.assign h.slot none).handles = s.handles.filter (· ≠ h) := by
  rw [handles, toList_assign_none hf, handles, List.filter_map]
  rfl

theorem handles_assign_some {s : Store k β} {h : Handle k} {old : β} (hf : s.find h = .ok old)
    (v : β) : (s.assign h.slot (some v)).handles = s.handles := by
  rw [handles, toList_assign_some hf, handles, List.map_map]
  refine List.map_congr_left ?_
  intro e _
  simp only [Function.comp]
  split
  · simp_all
  · rfl

/-! ### Insertion and maps -/

theorem find_insert (s : Store k β) (v : β) (h : Handle k) :
    (s.insert v).2.find h = if h = s.nextHandle then .ok v else s.find h := by
  by_cases hh : h = s.nextHandle
  · rw [if_pos hh, hh]
    exact find_insert_self s v
  · rw [if_neg hh]
    by_cases hp : h.program = s.program
    · by_cases hs : h.slot = s.slots.size
      · have hg : 0 ≠ h.generation := by
          intro hg
          apply hh
          cases h
          simp_all [nextHandle]
        have hnone : s.entryAt? h.slot = none := entryAt?_eq_none_of_le (Nat.le_of_eq hs.symm)
        simp only [find, program_insert, entryAt?_insert, if_pos hs, if_neg hg, hnone]
      · simp only [find, program_insert, entryAt?_insert, if_neg hs]
    · simp [find, hp]

theorem values_insert (s : Store k β) (v : β) : (s.insert v).2.values = s.values ++ [v] := by
  simp [values, toList_insert]

@[simp] theorem program_insertCopies (s : Store k β) (v : β) (n : Nat) :
    (s.insertCopies v n).2.program = s.program := by
  induction n generalizing s with
  | zero => rfl
  | succ n ih => exact ih _

theorem insertCopies_handles (s : Store k β) (v : β) (n : Nat) :
    (s.insertCopies v n).1 =
      (List.range' s.slots.size n).map fun slot => ⟨s.program, slot, 0⟩ := by
  induction n generalizing s with
  | zero => rfl
  | succ n ih => simp [insertCopies, ih, List.range'_succ, insert, nextHandle]

theorem toList_insertCopies (s : Store k β) (v : β) (n : Nat) :
    (s.insertCopies v n).2.toList =
      s.toList ++ (s.insertCopies v n).1.map fun h => (h, v) := by
  induction n generalizing s with
  | zero => simp [insertCopies]
  | succ n ih =>
      show ((s.insert v).2.insertCopies v n).2.toList =
        s.toList ++ (s.nextHandle :: ((s.insert v).2.insertCopies v n).1).map fun h => (h, v)
      rw [ih, toList_insert, List.map_cons, List.append_assoc, List.singleton_append]

theorem handles_insertCopies (s : Store k β) (v : β) (n : Nat) :
    (s.insertCopies v n).2.handles = s.handles ++ (s.insertCopies v n).1 := by
  rw [handles, toList_insertCopies, List.map_append, List.map_map]
  simp [handles, Function.comp_def]

theorem mapValues_mapValues (s : Store k β) (f g : β → β) :
    (s.mapValues f).mapValues g = s.mapValues fun v => g (f v) := by
  simp [mapValues, Function.comp_def]

theorem mapValues_id (s : Store k β) : (s.mapValues fun v => v) = s := by
  simp [mapValues]

end Store

end Socp
