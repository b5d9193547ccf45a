import Mathlib.Algebra.Group.Nat.Defs
import Socp.Proofs.Store.Commutation
import Socp.Proofs.Store.Fate

/-!
Handles in words. As long as the numbers fit, a store in words is the store it was packed from seen
through its words: it answers every handle alike, and every change leads to the packed result. So
what is known about issued and removed handles carries over, up to 2^32 entries.
-/

namespace Socp

/-! ### Handles -/

namespace PackedHandle

variable {k : Entity}

theorem pack_unpack (w : PackedHandle k) : w.unpack.pack = w := by
  simp [unpack, Handle.pack]

theorem unpack_lt_unpack {a b : PackedHandle k} : a.unpack < b.unpack ↔ a < b := by
  show _ ↔ a.program < b.program ∨ a.program = b.program ∧
    (a.slot < b.slot ∨ a.slot = b.slot ∧ a.generation < b.generation)
  simp only [Handle.lt_def, unpack, UInt32.lt_iff_toNat_lt, UInt32.toNat_inj]

end PackedHandle

namespace Handle

variable {k : Entity} {g h : Handle k}

theorem unpack_pack (hprogram : h.program < 2 ^ 32) (hslot : h.slot < 2 ^ 32)
    (hgeneration : h.generation < 2 ^ 32) : h.pack.unpack = h := by
  simp only [pack, PackedHandle.unpack, UInt32.toNat_ofNat_of_lt' hprogram,
    UInt32.toNat_ofNat_of_lt' hslot, UInt32.toNat_ofNat_of_lt' hgeneration]

/-- Numbers share a word if they differ by a multiple of what fits into it. -/
theorem pack_eq_iff :
    g.pack = h.pack ↔ g.program % 2 ^ 32 = h.program % 2 ^ 32 ∧
      g.slot % 2 ^ 32 = h.slot % 2 ^ 32 ∧ g.generation % 2 ^ 32 = h.generation % 2 ^ 32 := by
  simp only [pack, PackedHandle.mk.injEq, ← UInt32.toNat_inj, UInt32.toNat_ofNat']

theorem pack_eq_iff_eq_unpack (hg : g.pack.unpack = g) {w : PackedHandle k} :
    g.pack = w ↔ g = w.unpack := by
  constructor
  · rintro rfl
    exact hg.symm
  · rintro rfl
    exact w.pack_unpack

theorem pack_inj (hg : g.pack.unpack = g) (hh : h.pack.unpack = h) :
    g.pack = h.pack ↔ g = h := by
  rw [pack_eq_iff_eq_unpack hg, hh]

theorem pack_lt_pack (hg : g.pack.unpack = g) (hh : h.pack.unpack = h) :
    g.pack < h.pack ↔ g < h := by
  rw [← PackedHandle.unpack_lt_unpack, hg, hh]

end Handle

/-! ### Stores -/

namespace Store

open Arena

variable {k : Entity} {β : Type} {s : Store k β}

/-- The numbers that handles are compared with fit into words. -/
structure Fits (s : Store k β) : Prop where
  program_lt : s.program < 2 ^ 32
  generation_lt : ∀ h ∈ s.handles, h.generation < 2 ^ 32

theorem pack_empty (program : Nat) :
    (empty k β program).pack = .empty k β (.ofNat program) := by
  simp [pack, empty, PackedStore.empty]

theorem nextHandle_pack (s : Store k β) : s.pack.nextHandle = s.nextHandle.pack := by
  simp [pack, PackedStore.nextHandle, nextHandle, Handle.pack]

theorem pack_insert (s : Store k β) (v : β) : (s.insert v).2.pack = (s.pack.insert v).2 := by
  simp [pack, PackedStore.insert, Slot.pack]

theorem pack_mapValues (s : Store k β) (f : β → β) :
    (s.mapValues f).pack = s.pack.mapValues f := by
  simp [pack, PackedStore.mapValues, mapValues, Slot.pack, Function.comp_def]

theorem toList_pack (s : Store k β) : s.pack.toList = s.toList.map fun e => (e.1.pack, e.2) := by
  rw [toList, PackedStore.toList, pack, List.map_filterMap]
  dsimp only
  rw [Array.toList_map, List.zipIdx_map, List.filterMap_map]
  congr 1
  funext e
  simp [entryOf?, PackedStore.entryOf?, Slot.pack, Handle.pack, Function.comp_def]

theorem handles_pack (s : Store k β) : s.pack.handles = s.handles.map Handle.pack := by
  rw [PackedStore.handles, toList_pack, handles, List.map_map, List.map_map]
  rfl

theorem valueAt_pack (s : Store k β) (slot : Nat) :
    s.pack.valueAt slot =
      match s.entryAt? slot with
      | some (_, v) => .ok v
      | none => .error (.staleHandle k) := by
  rw [PackedStore.valueAt, pack, entryAt?]
  dsimp only
  rw [Array.getElem?_map]
  rcases s.slots[slot]? with _ | ⟨generation, _ | v⟩ <;> rfl

/-- A store in words looks where the store it stands for does. -/
theorem Fits.slotOf_pack (hs : s.Fits) (w : PackedHandle k) :
    s.pack.slotOf w = (s.find w.unpack).map fun _ => w.slot.toNat := by
  have hprogram : w.program = s.pack.program ↔ w.unpack.program = s.program := by
    rw [← UInt32.toNat_inj, pack, UInt32.toNat_ofNat_of_lt' hs.program_lt]
    rfl
  by_cases hp : w.unpack.program = s.program
  · rw [PackedStore.slotOf, if_neg (not_not_intro (hprogram.2 hp)), find,
      if_neg (not_not_intro hp), pack]
    dsimp only
    rw [Array.getElem?_map, entryAt?]
    have hslot : w.unpack.slot = w.slot.toNat := rfl
    rw [hslot]
    rcases hplace : s.slots[w.slot.toNat]? with _ | ⟨generation, _ | v⟩
    · rfl
    · simp [Slot.pack, Except.map]
    · -- generations are compared in live slots only
      have hlive : (⟨s.program, w.slot.toNat, generation⟩ : Handle k) ∈ s.handles :=
        mem_handles_iff.2 ⟨v, find_eq_ok_iff.2 ⟨rfl, entryAt?_eq_some_iff.2 hplace⟩⟩
      have hgeneration : UInt32.ofNat generation = w.generation ↔
          generation = w.unpack.generation := by
        rw [← UInt32.toNat_inj, UInt32.toNat_ofNat_of_lt' (hs.generation_lt _ hlive)]
        rfl
      simp only [Slot.pack, Option.map_some, Option.isSome_some, and_true, hgeneration,
        Option.bind_eq_bind, Option.bind_some, Option.pure_def]
      split <;> rfl
  · rw [PackedStore.slotOf, if_pos (mt hprogram.1 hp), find_eq_foreign_iff.2 hp]
    rfl

theorem Fits.check_pack (hs : s.Fits) (w : PackedHandle k) :
    s.pack.check w = (s.find w.unpack).map fun _ => () := by
  rw [PackedStore.check, hs.slotOf_pack]
  cases s.find w.unpack <;> rfl

theorem valueAt_pack_of_find {w : PackedHandle k} {v : β} (hf : s.find w.unpack = .ok v) :
    s.pack.valueAt w.slot.toNat = .ok v := by
  obtain ⟨-, hentry⟩ := find_eq_ok_iff.1 hf
  rw [valueAt_pack, show s.entryAt? w.slot.toNat = _ from hentry]

theorem Fits.find_pack (hs : s.Fits) (w : PackedHandle k) : s.pack.find w = s.find w.unpack := by
  rw [PackedStore.find, hs.slotOf_pack]
  cases hf : s.find w.unpack with
  | error e => rfl
  | ok v => exact valueAt_pack_of_find hf

theorem pack_adjust {w : PackedHandle k} {v : β} (hf : s.find w.unpack = .ok v) (f : β → β) :
    (s.adjust w.unpack f).pack = { s.pack with
      slots := s.pack.slots.modify w.slot.toNat fun place =>
        { place with value := some (f v) } } := by
  obtain ⟨hp, hentry⟩ := find_eq_ok_iff.1 hf
  rw [pack, program_adjust, slots_adjust, if_pos hp, map_modify]
  · rfl
  · intro place hplace
    obtain rfl := Option.some.inj (hplace.symm.trans (entryAt?_eq_some_iff.1 hentry))
    simp [Slot.revise, Slot.pack]

theorem pack_assign_none {w : PackedHandle k} {v : β} (hf : s.find w.unpack = .ok v) :
    (s.assign w.unpack.slot none).pack = { s.pack with
      slots := s.pack.slots.modify w.slot.toNat fun place => ⟨place.generation + 1, none⟩ } := by
  obtain ⟨-, hentry⟩ := find_eq_ok_iff.1 hf
  rw [pack, program_assign, slots_assign_none, map_modify]
  · rfl
  · intro place hplace
    obtain rfl := Option.some.inj (hplace.symm.trans (entryAt?_eq_some_iff.1 hentry))
    simp [Slot.retire, Slot.isLive, Slot.pack]

theorem Fits.update_pack (hs : s.Fits) (w : PackedHandle k) (f : β → β) :
    s.pack.update w f = (s.update w.unpack f).map Store.pack := by
  rw [PackedStore.update, hs.slotOf_pack]
  cases hf : s.find w.unpack with
  | error e =>
      rw [update_eq_error hf]
      rfl
  | ok v =>
      rw [update_eq_adjust hf, Except.map, Except.map, pack_adjust hf]
      simp only [bind, Except.bind, valueAt_pack_of_find hf]
      rfl

theorem Fits.remove_pack (hs : s.Fits) (w : PackedHandle k) :
    s.pack.remove w = (s.remove w.unpack).map fun r => (r.1, r.2.pack) := by
  rw [PackedStore.remove, hs.slotOf_pack]
  cases hf : s.find w.unpack with
  | error e =>
      rw [remove_eq_error hf]
      rfl
  | ok v =>
      rw [remove_eq_ok_iff.2 ⟨hf, rfl⟩, Except.map, Except.map, pack_assign_none hf]
      simp only [bind, Except.bind, valueAt_pack_of_find hf]
      rfl

end Store

/-! ### Changes -/

/-- A change through words, with the handles that they stand for. -/
def Change.unpack {k : Entity} {β : Type} : Change (PackedHandle k) β → Change (Handle k) β
  | .insert v => .insert v
  | .update w f => .update w.unpack f
  | .updateAll f => .updateAll f
  | .remove w => .remove w.unpack

namespace Store

open Arena

variable {k : Entity} {β : Type} {s : Store k β} {issued removed : List (Handle k)}

theorem Fits.apply_pack (hs : s.Fits) (c : Change (PackedHandle k) β) :
    c.apply s.pack = (c.unpack.apply s).pack := by
  cases c with
  | insert v => exact (s.pack_insert v).symm
  | update w f =>
      rw [Change.unpack, Change.apply, Change.apply,
        show Arena.update s.pack w f = (Arena.update s w.unpack f).map pack from
          hs.update_pack w f]
      cases Arena.update s w.unpack f <;> rfl
  | updateAll f => exact (s.pack_mapValues f).symm
  | remove w =>
      rw [Change.unpack, Change.apply, Change.apply, show Arena.remove s.pack w =
        (Arena.remove s w.unpack).map (fun r => (r.1, r.2.pack)) from hs.remove_pack w]
      cases Arena.remove s w.unpack <;> rfl

theorem issued_pack (s : Store k β) (c : Change (PackedHandle k) β) :
    c.issued s.pack = (c.unpack.issued s).map Handle.pack := by
  cases c with
  | insert v => exact congrArg ([·]) s.nextHandle_pack
  | update | updateAll | remove => rfl

theorem Fits.removed_pack (hs : s.Fits) (c : Change (PackedHandle k) β) :
    c.removed s.pack = (c.unpack.removed s).map Handle.pack := by
  cases c with
  | insert | update | updateAll => rfl
  | remove w =>
      rw [Change.unpack, Change.removed, Change.removed, show Arena.remove s.pack w =
        (Arena.remove s w.unpack).map (fun r => (r.1, r.2.pack)) from hs.remove_pack w]
      cases Arena.remove s w.unpack with
      | error e => rfl
      | ok r => exact congrArg ([·]) w.pack_unpack.symm

theorem act_pack {h : Handle k} (hh : h.pack.unpack = h) (c : Change (PackedHandle k) β)
    (v : Option β) : c.act h.pack v = c.unpack.act h v := by
  cases c with
  | insert | updateAll => rfl
  | update w f => simp only [Change.unpack, Change.act, Handle.pack_eq_iff_eq_unpack hh]
  | remove w => simp only [Change.unpack, Change.act, Handle.pack_eq_iff_eq_unpack hh]

namespace Accounts

theorem fits (ha : s.Accounts issued removed) (hprogram : s.program < 2 ^ 32) : s.Fits where
  program_lt := hprogram
  generation_lt := by
    intro h hh
    rw [ha.handles_eq] at hh
    rw [ha.generation_eq (List.mem_filter.1 hh).1]
    decide

theorem pack_applyAll (ha : s.Accounts issued removed) (hprogram : s.program < 2 ^ 32)
    (cs : List (Change (PackedHandle k) β)) :
    Arena.applyAll s.pack cs = (Arena.applyAll s (cs.map .unpack)).pack ∧
      issuedBy s.pack cs = (issuedBy s (cs.map .unpack)).map Handle.pack ∧
        removedBy s.pack cs = (removedBy s (cs.map .unpack)).map Handle.pack := by
  induction cs generalizing s issued removed with
  | nil => exact ⟨rfl, rfl, rfl⟩
  | cons c cs ih =>
      -- the accounts say that live handles are of generation 0, whatever is done
      have hs := ha.fits hprogram
      obtain ⟨hrun, hissued, hremoved⟩ :=
        ih (ha.apply c.unpack) ((program_apply s c.unpack).trans_lt hprogram)
      rw [List.map_cons, issuedBy, issuedBy, removedBy, removedBy, hs.apply_pack, s.issued_pack,
        hs.removed_pack, hissued, hremoved, List.map_append, List.map_append]
      refine ⟨?_, rfl, rfl⟩
      rw [applyAll_cons, hs.apply_pack, hrun]
      rfl

theorem unpack_pack (ha : s.Accounts issued removed) (hprogram : s.program < 2 ^ 32)
    (hsize : s.slots.size ≤ 2 ^ 32) {h : Handle k} (hh : h ∈ issued) : h.pack.unpack = h := by
  refine Handle.unpack_pack ?_ ?_ ?_
  · rwa [ha.program_eq hh]
  · exact (ha.slot_lt hh).trans_le hsize
  · rw [ha.generation_eq hh]
    decide

/-- The words of the issued handles repeat with the entry after the 2^32-th one. -/
theorem nodup_map_pack_iff (ha : s.Accounts issued removed) (hprogram : s.program < 2 ^ 32) :
    (issued.map Handle.pack).Nodup ↔ s.slots.size ≤ 2 ^ 32 := by
  constructor
  · intro hnodup
    refine Nat.le_of_not_lt fun hlt => ?_
    have hmem : ∀ slot < s.slots.size, (⟨s.program, slot, 0⟩ : Handle k) ∈ issued := by
      intro slot hslot
      rw [ha.issued_eq]
      exact List.mem_map_of_mem (List.mem_range.2 hslot)
    have hwords : (⟨s.program, 0, 0⟩ : Handle k).pack = (⟨s.program, 2 ^ 32, 0⟩ : Handle k).pack :=
      Handle.pack_eq_iff.2 (by simp)
    have heq := List.inj_on_of_nodup_map hnodup (hmem 0 (by omega)) (hmem _ hlt) hwords
    simp at heq
  · intro hsize
    refine List.Nodup.map_on ?_ ha.nodup
    intro g hg h hh heq
    rwa [Handle.pack_inj (ha.unpack_pack hprogram hsize hg) (ha.unpack_pack hprogram hsize hh)]
      at heq

end Accounts

theorem nodup_map_pack_insertCopies_iff {program : Nat} (hprogram : program < 2 ^ 32) (v : β)
    (n : Nat) :
    (((empty k β program).insertCopies v n).1.map Handle.pack).Nodup ↔ n ≤ 2 ^ 32 := by
  have hleads := Leads.insertCopies (fun _ : β => ()) (empty k β program) v n
  have haccounts := hleads.accounts (Accounts.empty program)
  rw [List.nil_append] at haccounts
  have hcopies : ((empty k β program).insertCopies v n).2.program < 2 ^ 32 := by
    rwa [program_insertCopies]
  rw [haccounts.nodup_map_pack_iff hcopies, size_slots_insertCopies, empty, Array.size_empty,
    Nat.zero_add]

end Store

end Socp
