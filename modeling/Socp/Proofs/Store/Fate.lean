import Socp.Proofs.Store.Change
import Socp.Proofs.Store.Standing

/-!
The fate of handles over any number of changes of a store. An insertion issues a handle that was
never issued before. From then on the handle stands for the value inserted with it, as changed
through this very handle, until the entry is removed; then it is stale for good.
-/

namespace Socp

namespace Store

open Arena

variable {k : Entity} {β : Type}

/-! ### Changes -/

theorem apply_update (s : Store k β) (h : Handle k) (f : β → β) :
    (Change.update h f).apply s = s.adjust h f := by
  rw [Change.apply]
  cases hf : s.find h with
  | ok v => rw [show Arena.update s h f = _ from update_eq_adjust hf f]
  | error e => rw [show Arena.update s h f = _ from update_eq_error hf f, adjust, hf]

theorem arena_remove_of_live {s : Store k β} {h : Handle k} {v : β} (hf : s.find h = .ok v) :
    Arena.remove s h = .ok (v, s.assign h.slot none) :=
  remove_eq_ok_iff.2 ⟨hf, rfl⟩

theorem apply_remove_of_live {s : Store k β} {h : Handle k} {v : β} (hf : s.find h = .ok v) :
    (Change.remove h).apply s = s.assign h.slot none := by
  rw [Change.apply, arena_remove_of_live hf]

theorem removed_of_live {s : Store k β} {h : Handle k} {v : β} (hf : s.find h = .ok v) :
    (Change.remove h).removed s = [h] := by
  rw [Change.removed, arena_remove_of_live hf]

theorem apply_remove_of_error {s : Store k β} {h : Handle k} {e : ProgramError}
    (hf : s.find h = .error e) : (Change.remove h).apply s = s := by
  rw [Change.apply, show Arena.remove s h = _ from remove_eq_error hf]

theorem removed_of_error {s : Store k β} {h : Handle k} {e : ProgramError}
    (hf : s.find h = .error e) : (Change.remove h).removed s = [] := by
  rw [Change.removed, show Arena.remove s h = _ from remove_eq_error hf]

@[simp] theorem program_apply (s : Store k β) (c : Change (Handle k) β) :
    (c.apply s).program = s.program := by
  cases c with
  | insert v => rfl
  | update h f => rw [apply_update, program_adjust]
  | updateAll f => rfl
  | remove h =>
      cases hf : s.find h with
      | ok v => rw [apply_remove_of_live hf, program_assign]
      | error e => rw [apply_remove_of_error hf]

@[simp] theorem program_applyAll (s : Store k β) (cs : List (Change (Handle k) β)) :
    (applyAll s cs).program = s.program := by
  induction cs generalizing s with
  | nil => rfl
  | cons c cs ih => rw [applyAll_cons, ih, program_apply]

theorem program_of_issuedBy {s : Store k β} {cs : List (Change (Handle k) β)} {h : Handle k}
    (hh : h ∈ issuedBy s cs) : h.program = s.program := by
  induction cs generalizing s with
  | nil => cases hh
  | cons c cs ih =>
      rcases List.mem_append.1 hh with hnow | hlater
      · cases c with
        | insert v =>
            rw [List.mem_singleton.1 hnow]
            rfl
        | update | updateAll | remove => cases hnow
      · exact (ih hlater).trans (program_apply s c)

theorem program_of_removedBy {s : Store k β} {cs : List (Change (Handle k) β)} {h : Handle k}
    (hh : h ∈ removedBy s cs) : h.program = s.program := by
  induction cs generalizing s with
  | nil => cases hh
  | cons c cs ih =>
      rcases List.mem_append.1 hh with hnow | hlater
      · cases c with
        | insert | update | updateAll => cases hnow
        | remove g =>
            cases hf : s.find g with
            | ok v =>
                rw [removed_of_live hf] at hnow
                rw [List.mem_singleton.1 hnow]
                exact program_of_find hf
            | error e =>
                rw [removed_of_error hf] at hnow
                cases hnow
      · exact (ih hlater).trans (program_apply s c)

/-! ### What a handle stands for -/

/-- The answer to a handle that was issued. -/
def standing (k : Entity) : Option β → Except ProgramError β
  | some v => .ok v
  | none => .error (.staleHandle k)

/-- A handle that was issued stays what it is, whatever else is done. -/
theorem find_apply {s : Store k β} {g : Handle k} {v : Option β} (hlt : g.slot < s.slots.size)
    (hg : s.find g = standing k v) (c : Change (Handle k) β) :
    (c.apply s).find g = standing k (c.act g v) := by
  cases c with
  | insert w => exact (find_insert_of_lt hlt w).trans hg
  | update h f =>
      rw [apply_update, find_adjust, Change.act]
      split
      case isTrue heq =>
        rw [← heq, hg]
        cases v <;> rfl
      case isFalse => exact hg
  | updateAll f =>
      show (s.mapValues f).find g = standing k (v.map f)
      rw [find_mapValues, hg]
      cases v <;> rfl
  | remove h =>
      rw [Change.act]
      cases hf : s.find h with
      | ok w =>
          rw [apply_remove_of_live hf, find_assign hf]
          split
          · rfl
          · exact hg
      | error e =>
          rw [apply_remove_of_error hf, hg]
          split
          case isTrue heq =>
            -- what cannot be removed is stale already
            rw [heq, hf] at hg
            cases v with
            | none => rfl
            | some w => cases hg
          case isFalse => rfl

theorem size_slots_apply_le (s : Store k β) (c : Change (Handle k) β) :
    s.slots.size ≤ (c.apply s).slots.size := by
  cases c with
  | insert v =>
      show s.slots.size ≤ (s.slots.push _).size
      rw [Array.size_push]
      omega
  | update h f => rw [apply_update, size_slots_adjust]
  | updateAll f => exact Nat.le_of_eq (size_slots_mapValues s f).symm
  | remove h =>
      cases hf : s.find h with
      | ok v => rw [apply_remove_of_live hf, size_slots_assign]
      | error e => rw [apply_remove_of_error hf]

theorem size_slots_le_applyAll (s : Store k β) (cs : List (Change (Handle k) β)) :
    s.slots.size ≤ (applyAll s cs).slots.size := by
  induction cs generalizing s with
  | nil => exact Nat.le_refl _
  | cons c cs ih => exact Nat.le_trans (s.size_slots_apply_le c) (ih _)

theorem slot_lt_of_find {s : Store k β} {h : Handle k} {v : β} (hf : s.find h = .ok v) :
    h.slot < s.slots.size := by
  refine Nat.lt_of_not_le fun hle => ?_
  have hentry := (find_eq_ok_iff.1 hf).2
  rw [entryAt?_eq_none_of_le hle] at hentry
  cases hentry

theorem find_applyAll {s : Store k β} {g : Handle k} {v : Option β} (hlt : g.slot < s.slots.size)
    (hg : s.find g = standing k v) (cs : List (Change (Handle k) β)) :
    (applyAll s cs).find g = standing k (cs.foldl (fun w c => c.act g w) v) := by
  induction cs generalizing s v with
  | nil => exact hg
  | cons c cs ih =>
      exact ih (Nat.lt_of_lt_of_le hlt (s.size_slots_apply_le c)) (find_apply hlt hg c)

/-- The handle that an insertion issues stands for the value inserted then, with what was done
through this handle since. -/
theorem find_insert_applyAll (s : Store k β) (v : β) (cs : List (Change (Handle k) β)) :
    (applyAll (s.insert v).2 cs).find (s.insert v).1 =
      standing k (cs.foldl (fun w c => c.act (s.insert v).1 w) (some v)) := by
  refine find_applyAll ?_ (find_insert_self s v) cs
  show s.slots.size < (s.slots.push _).size
  rw [Array.size_push]
  omega

/-! ### Which handles there are -/

/-- The issued and the removed handles tell everything about the handles of a store. The issued ones
are numbered without a gap, and the ones that are not removed are live. -/
structure Accounts (s : Store k β) (issued removed : List (Handle k)) : Prop where
  issued_eq : issued = (List.range s.slots.size).map fun slot => ⟨s.program, slot, 0⟩
  removed_issued : ∀ h ∈ removed, h ∈ issued
  handles_eq : s.handles = issued.filter (· ∉ removed)

namespace Accounts

variable {s : Store k β} {issued removed : List (Handle k)}

theorem empty (program : Nat) : (Store.empty k β program).Accounts [] [] :=
  ⟨rfl, by simp, rfl⟩

theorem slot_lt (ha : s.Accounts issued removed) {h : Handle k} (hh : h ∈ issued) :
    h.slot < s.slots.size := by
  rw [ha.issued_eq] at hh
  obtain ⟨slot, hslot, rfl⟩ := List.mem_map.1 hh
  exact List.mem_range.1 hslot

theorem program_eq (ha : s.Accounts issued removed) {h : Handle k} (hh : h ∈ issued) :
    h.program = s.program := by
  rw [ha.issued_eq] at hh
  obtain ⟨slot, -, rfl⟩ := List.mem_map.1 hh
  rfl

theorem generation_eq (ha : s.Accounts issued removed) {h : Handle k} (hh : h ∈ issued) :
    h.generation = 0 := by
  rw [ha.issued_eq] at hh
  obtain ⟨slot, -, rfl⟩ := List.mem_map.1 hh
  rfl

theorem increasing (ha : s.Accounts issued removed) : issued.Pairwise (· < ·) := by
  rw [ha.issued_eq, List.pairwise_map]
  exact List.pairwise_lt_range.imp fun hlt => .inr ⟨rfl, .inl hlt⟩

theorem length_issued (ha : s.Accounts issued removed) : issued.length = s.slots.size := by
  rw [ha.issued_eq, List.length_map, List.length_range]

theorem nodup (ha : s.Accounts issued removed) : issued.Nodup := by
  refine ha.increasing.imp ?_
  rintro g h hlt rfl
  exact Handle.lt_irrefl g hlt

theorem of_handles_eq (ha : s.Accounts issued removed) {t : Store k β}
    (hprogram : t.program = s.program) (hsize : t.slots.size = s.slots.size)
    (hhandles : t.handles = s.handles) : t.Accounts issued removed where
  issued_eq := by rw [hprogram, hsize, ha.issued_eq]
  removed_issued := ha.removed_issued
  handles_eq := hhandles.trans ha.handles_eq

theorem insert (ha : s.Accounts issued removed) (v : β) :
    (s.insert v).2.Accounts (issued ++ [s.nextHandle]) removed where
  issued_eq := by
    rw [slots_insert, Array.size_push, List.range_succ, List.map_append, ha.issued_eq]
    rfl
  removed_issued := fun h hh => List.mem_append_left _ (ha.removed_issued h hh)
  handles_eq := by
    -- the slot is a new one, so its handle has not been removed
    have hnew : s.nextHandle ∉ removed := fun hh =>
      Nat.lt_irrefl _ (ha.slot_lt (ha.removed_issued _ hh))
    rw [handles_insert, ha.handles_eq, List.filter_append, List.filter_cons_of_pos (by simpa),
      List.filter_nil]

theorem remove (ha : s.Accounts issued removed) {h : Handle k} {v : β} (hf : s.find h = .ok v) :
    (s.assign h.slot none).Accounts issued (removed ++ [h]) where
  issued_eq := by rw [program_assign, size_slots_assign, ha.issued_eq]
  removed_issued := by
    intro g hg
    rcases List.mem_append.1 hg with hg | hg
    · exact ha.removed_issued g hg
    · have hlive : h ∈ s.handles := mem_handles_iff.2 ⟨v, hf⟩
      rw [ha.handles_eq] at hlive
      rw [List.mem_singleton.1 hg]
      exact (List.mem_filter.1 hlive).1
  handles_eq := by
    rw [handles_assign_none hf, ha.handles_eq, List.filter_filter]
    exact List.filter_congr fun g _ => by simp [not_or, Bool.and_comm]

theorem apply (ha : s.Accounts issued removed) (c : Change (Handle k) β) :
    (c.apply s).Accounts (issued ++ c.issued s) (removed ++ c.removed s) := by
  cases c with
  | insert v =>
      show (s.insert v).2.Accounts (issued ++ [s.nextHandle]) (removed ++ [])
      rw [List.append_nil]
      exact ha.insert v
  | update h f =>
      show ((Change.update h f).apply s).Accounts (issued ++ []) (removed ++ [])
      rw [List.append_nil, List.append_nil, apply_update]
      exact ha.of_handles_eq (by simp) (by simp) (by simp)
  | updateAll f =>
      show (s.mapValues f).Accounts (issued ++ []) (removed ++ [])
      rw [List.append_nil, List.append_nil]
      exact ha.of_handles_eq rfl (by simp) (by simp)
  | remove h =>
      show ((Change.remove h).apply s).Accounts (issued ++ []) _
      rw [List.append_nil]
      cases hf : s.find h with
      | ok v =>
          rw [apply_remove_of_live hf, removed_of_live hf]
          exact ha.remove hf
      | error e =>
          rw [apply_remove_of_error hf, removed_of_error hf, List.append_nil]
          exact ha

theorem applyAll (ha : s.Accounts issued removed) (cs : List (Change (Handle k) β)) :
    (applyAll s cs).Accounts (issued ++ issuedBy s cs) (removed ++ removedBy s cs) := by
  induction cs generalizing s issued removed with
  | nil => simpa [issuedBy, removedBy] using ha
  | cons c cs ih =>
      have hrest := ih (ha.apply c)
      rwa [List.append_assoc, List.append_assoc] at hrest

end Accounts

theorem accounts_of_empty (program : Nat) (cs : List (Change (Handle k) β)) :
    (applyAll (empty k β program) cs).Accounts (issuedBy (empty k β program) cs)
      (removedBy (empty k β program) cs) :=
  (Accounts.empty program).applyAll cs

/-! ### From one store to another -/

end Store

namespace Arena.Leads

open Store

variable {k : Entity} {β γ : Type} {view : β → γ} {s t : Store k β}
  {issued removed issued' removed' : List (Handle k)}

theorem insertCopies (view : β → γ) (s : Store k β) (v : β) (n : Nat) :
    Leads view s (s.insertCopies v n).2 (s.insertCopies v n).1 [] := by
  induction n generalizing s with
  | zero => exact refl view s
  | succ n ih =>
      have hfirst : Leads view s (s.insert v).2 [s.nextHandle] [] := of_apply (.insert v) trivial s
      exact hfirst.trans (ih _)

theorem adjustAll {l : List (Handle k × (β → β))} (hview : ∀ e ∈ l, ∀ v, view (e.2 v) = view v)
    (s : Store k β) : Leads view s (s.adjustAll l) [] [] := by
  induction l generalizing s with
  | nil => exact refl view s
  | cons e l ih =>
      have hfirst : Leads view s (s.adjust e.1 e.2) [] [] :=
        ⟨[.update e.1 e.2], apply_update .., rfl, rfl,
          by simpa [Change.Keeps] using hview e List.mem_cons_self⟩
      exact hfirst.trans (ih (fun e' he' => hview e' (List.mem_cons_of_mem e he')) _)

theorem mapValues {f : β → β} (hview : ∀ v, view (f v) = view v) (s : Store k β) :
    Leads view s (s.mapValues f) [] [] :=
  ⟨[.updateAll f], rfl, rfl, rfl, by simpa [Change.Keeps] using hview⟩

theorem clear {hs : List (Handle k)} (hnodup : hs.Nodup) (hlive : ∀ h ∈ hs, h ∈ s.handles) :
    Leads view s (s.clear hs) [] hs := by
  induction hs generalizing s with
  | nil => exact refl view s
  | cons h hs ih =>
      obtain ⟨v, hf⟩ := mem_handles_iff.1 (hlive h List.mem_cons_self)
      have hfirst : Leads view s (s.assign h.slot none) [] [h] :=
        ⟨[.remove h], apply_remove_of_live hf, rfl,
          by rw [removedBy, removed_of_live hf]; rfl, by simp [Change.Keeps]⟩
      exact hfirst.trans (ih (List.nodup_cons.1 hnodup).2 (live_assign_none hnodup hlive))

theorem program_eq (hst : Leads view s t issued removed) : t.program = s.program := by
  obtain ⟨cs, rfl, -, -, -⟩ := hst
  exact program_applyAll s cs

theorem program_of_issued (hst : Leads view s t issued removed) {h : Handle k}
    (hh : h ∈ issued) : h.program = s.program := by
  obtain ⟨cs, -, rfl, -, -⟩ := hst
  exact program_of_issuedBy hh

theorem program_of_removed (hst : Leads view s t issued removed) {h : Handle k}
    (hh : h ∈ removed) : h.program = s.program := by
  obtain ⟨cs, -, -, rfl, -⟩ := hst
  exact program_of_removedBy hh

theorem accounts (hst : Leads view s t issued removed) (ha : s.Accounts issued' removed') :
    t.Accounts (issued' ++ issued) (removed' ++ removed) := by
  obtain ⟨cs, rfl, rfl, rfl, -⟩ := hst
  exact ha.applyAll cs

theorem view_eq (hst : Leads view s t issued removed) {h : Handle k} {v w : β}
    (hv : s.find h = .ok v) (hw : t.find h = .ok w) : view w = view v := by
  obtain ⟨cs, rfl, -, -, hkeeps⟩ := hst
  rw [find_applyAll (slot_lt_of_find hv) (v := some v) hv] at hw
  have hkept := Change.view_foldl_act (g := h) (a := view v) (o := some v) hkeeps (by simp)
  cases hfate : cs.foldl (fun w c => c.act h w) (some v) with
  | none =>
      rw [hfate] at hw
      cases hw
  | some x =>
      rw [hfate] at hw
      cases hw
      exact hkept w hfate

end Arena.Leads

end Socp
