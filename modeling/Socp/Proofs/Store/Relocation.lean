import Socp.Proofs.Store.Standing

/-!
Stores that differ in their handles only. One of them started out under another number, or had
entries before that are gone; every operation keeps the two in step, with handles carried over.
-/

namespace Socp

/-- How handles are carried over from one program to another, in which numbering begins later. -/
structure Relocation where
  source : Nat
  target : Nat
  offset : Entity → Nat

/-- A handle of the first program becomes one of the second; a foreign handle stays foreign. -/
def Relocation.handle (ρ : Relocation) {k : Entity} (h : Handle k) : Handle k :=
  if h.program = ρ.source then ⟨ρ.target, h.slot + ρ.offset k, h.generation⟩
  else { h with program := ρ.target + 1 }

namespace Relocation

variable {ρ : Relocation} {k : Entity} {g h : Handle k}

theorem handle_of_own (hown : h.program = ρ.source) :
    ρ.handle h = ⟨ρ.target, h.slot + ρ.offset k, h.generation⟩ :=
  if_pos hown

theorem program_handle_iff : (ρ.handle h).program = ρ.target ↔ h.program = ρ.source := by
  unfold handle
  split
  case isTrue hown => simp [hown]
  case isFalse hforeign => simp [hforeign]

theorem handle_eq_iff (hown : g.program = ρ.source) : ρ.handle g = ρ.handle h ↔ g = h := by
  constructor
  · intro heq
    have hprogram : h.program = ρ.source := by
      rw [← program_handle_iff, ← heq, program_handle_iff]
      exact hown
    rw [handle_of_own hown, handle_of_own hprogram] at heq
    cases g
    cases h
    simp_all
  · exact congrArg ρ.handle

theorem handle_lt_iff (hg : g.program = ρ.source) (hh : h.program = ρ.source) :
    ρ.handle g < ρ.handle h ↔ g < h := by
  rw [handle_of_own hg, handle_of_own hh, Handle.lt_def, Handle.lt_def]
  dsimp only
  omega

end Relocation

namespace Store

variable {k : Entity} {β γ : Type}

/-- The entries of `t` are those of `s` under the handles carried over, with related values. -/
structure Relocated (ρ : Relocation) (R : β → γ → Prop) (s : Store k β) (t : Store k γ) : Prop where
  source : s.program = ρ.source
  target : t.program = ρ.target
  size_eq : t.slots.size = s.slots.size + ρ.offset k
  handles_eq : t.handles = s.handles.map ρ.handle
  related : ∀ {h v}, s.find h = .ok v → ∃ w, t.find (ρ.handle h) = .ok w ∧ R v w

namespace Relocated

variable {ρ : Relocation} {R : β → γ → Prop} {s : Store k β} {t : Store k γ}

theorem own (hr : Relocated ρ R s t) {h : Handle k} (hh : h ∈ s.handles) :
    h.program = ρ.source := by
  obtain ⟨v, hv⟩ := mem_handles_iff.1 hh
  exact (program_of_find hv).trans hr.source

theorem mem_handles_iff (hr : Relocated ρ R s t) {h : Handle k} :
    ρ.handle h ∈ t.handles ↔ h ∈ s.handles := by
  rw [hr.handles_eq, List.mem_map]
  constructor
  · rintro ⟨g, hg, heq⟩
    rw [Relocation.handle_eq_iff (hr.own hg)] at heq
    exact heq ▸ hg
  · exact fun hh => ⟨h, hh, rfl⟩

/-- A look-up in one store and the look-up of the handle carried over turn out alike. -/
theorem find_cases (hr : Relocated ρ R s t) (h : Handle k) :
    (∃ v w, s.find h = .ok v ∧ t.find (ρ.handle h) = .ok w ∧ R v w) ∨
      ∃ cause, s.find h = .error cause ∧ t.find (ρ.handle h) = .error cause := by
  cases hf : s.find h with
  | ok v =>
      obtain ⟨w, hw, hvw⟩ := hr.related hf
      exact .inl ⟨v, w, rfl, hw, hvw⟩
  | error cause =>
      refine .inr ⟨cause, rfl, ?_⟩
      have hdead : ρ.handle h ∉ t.handles := by
        rw [hr.mem_handles_iff, Store.mem_handles_iff]
        rintro ⟨v, hv⟩
        rw [hf] at hv
        cases hv
      cases ht : t.find (ρ.handle h) with
      | ok w => exact absurd (Store.mem_handles_iff.2 ⟨w, ht⟩) hdead
      | error cause' =>
          have hprogram : (ρ.handle h).program = t.program ↔ h.program = s.program := by
            rw [hr.target, hr.source, Relocation.program_handle_iff]
          rcases find_error hf with ⟨rfl, hne⟩ | ⟨rfl, heq⟩
          · rw [ne_eq, ← hprogram] at hne
            rw [find_eq_foreign_iff.2 hne] at ht
            rw [← ht]
          · rcases find_error ht with ⟨-, hne⟩ | ⟨rfl, -⟩
            · exact absurd (hprogram.2 heq) hne
            · rfl

theorem nextHandle_eq (hr : Relocated ρ R s t) : t.nextHandle = ρ.handle s.nextHandle := by
  rw [Relocation.handle_of_own hr.source, nextHandle, hr.target, hr.size_eq]
  rfl

theorem insert (hr : Relocated ρ R s t) {v : β} {w : γ} (hvw : R v w) :
    Relocated ρ R (s.insert v).2 (t.insert w).2 where
  source := hr.source
  target := hr.target
  size_eq := by
    rw [slots_insert, slots_insert, Array.size_push, Array.size_push, hr.size_eq]
    omega
  handles_eq := by
    rw [handles_insert, handles_insert, List.map_append, hr.handles_eq, hr.nextHandle_eq]
    rfl
  related {h x} hf := by
    rw [find_insert] at hf ⊢
    by_cases hnew : h = s.nextHandle
    · rw [if_pos hnew] at hf
      cases hf
      exact ⟨w, if_pos (by rw [hnew, hr.nextHandle_eq]), hvw⟩
    · rw [if_neg hnew] at hf
      have hown : h.program = ρ.source := (program_of_find hf).trans hr.source
      have hnew' : ρ.handle h ≠ t.nextHandle := by
        rwa [hr.nextHandle_eq, ne_eq, Relocation.handle_eq_iff hown]
      rw [if_neg hnew']
      exact hr.related hf

theorem insertCopies (hr : Relocated ρ R s t) {v : β} {w : γ} (hvw : R v w) (n : Nat) :
    (t.insertCopies w n).1 = (s.insertCopies v n).1.map ρ.handle ∧
      Relocated ρ R (s.insertCopies v n).2 (t.insertCopies w n).2 := by
  induction n generalizing s t with
  | zero => exact ⟨rfl, hr⟩
  | succ n ih =>
      obtain ⟨hhandles, hrest⟩ := ih (hr.insert hvw)
      refine ⟨?_, hrest⟩
      show t.nextHandle :: ((t.insert w).2.insertCopies w n).1 =
        ρ.handle s.nextHandle :: ((s.insert v).2.insertCopies v n).1.map ρ.handle
      rw [hhandles, hr.nextHandle_eq]

theorem adjust (hr : Relocated ρ R s t) (h : Handle k) {f : β → β} {f' : γ → γ}
    (hf : ∀ v w, R v w → R (f v) (f' w)) :
    Relocated ρ R (s.adjust h f) (t.adjust (ρ.handle h) f') where
  source := (program_adjust ..).trans hr.source
  target := (program_adjust ..).trans hr.target
  size_eq := by rw [size_slots_adjust, size_slots_adjust, hr.size_eq]
  handles_eq := by rw [handles_adjust, handles_adjust, hr.handles_eq]
  related {g x} hg := by
    have hown : g.program = ρ.source :=
      (program_of_find hg).trans ((program_adjust ..).trans hr.source)
    rw [find_adjust] at hg ⊢
    by_cases heq : g = h
    · subst heq
      rw [if_pos rfl] at hg ⊢
      rcases hr.find_cases g with ⟨v, w, hv, hw, hvw⟩ | ⟨cause, hv, -⟩
      · rw [hv] at hg
        cases hg
        exact ⟨f' w, by rw [hw]; rfl, hf v w hvw⟩
      · rw [hv] at hg
        cases hg
    · rw [if_neg heq] at hg
      rw [if_neg (by rwa [Relocation.handle_eq_iff hown])]
      exact hr.related hg

theorem adjustAll (hr : Relocated ρ R s t) {ι : Type} (l : List (Handle k × ι))
    {f : ι → β → β} {g : ι → γ → γ} (hfg : ∀ i v w, R v w → R (f i v) (g i w)) :
    Relocated ρ R (s.adjustAll (l.map fun e => (e.1, f e.2)))
      (t.adjustAll (l.map fun e => (ρ.handle e.1, g e.2))) := by
  induction l generalizing s t with
  | nil => exact hr
  | cons e l ih => exact ih (hr.adjust e.1 (hfg e.2))

theorem assign_none (hr : Relocated ρ R s t) {h : Handle k} {v : β} {w : γ}
    (hv : s.find h = .ok v) (hw : t.find (ρ.handle h) = .ok w) :
    Relocated ρ R (s.assign h.slot none) (t.assign (ρ.handle h).slot none) where
  source := (program_assign ..).trans hr.source
  target := (program_assign ..).trans hr.target
  size_eq := by rw [size_slots_assign, size_slots_assign, hr.size_eq]
  handles_eq := by
    rw [handles_assign_none hw, handles_assign_none hv, hr.handles_eq, List.filter_map]
    congr 1
    refine List.filter_congr ?_
    intro g hg
    simp [Relocation.handle_eq_iff (hr.own hg)]
  related {g x} hg := by
    have hown : g.program = ρ.source :=
      (program_of_find hg).trans ((program_assign ..).trans hr.source)
    rw [find_assign hv] at hg
    split at hg
    case isTrue => cases hg
    case isFalse hne =>
      rw [find_assign hw, if_neg (by rwa [Relocation.handle_eq_iff hown])]
      exact hr.related hg

theorem clear (hr : Relocated ρ R s t) {hs : List (Handle k)} (hnodup : hs.Nodup)
    (hlive : ∀ h ∈ hs, h ∈ s.handles) :
    Relocated ρ R (s.clear hs) (t.clear (hs.map ρ.handle)) := by
  induction hs generalizing s t with
  | nil => exact hr
  | cons h hs ih =>
      obtain ⟨v, hv⟩ := Store.mem_handles_iff.1 (hlive h List.mem_cons_self)
      obtain ⟨w, hw, -⟩ := hr.related hv
      exact ih (hr.assign_none hv hw) (List.nodup_cons.1 hnodup).2 (live_assign_none hnodup hlive)

theorem mapValues (hr : Relocated ρ R s t) {f : β → β} {f' : γ → γ}
    (hf : ∀ v w, R v w → R (f v) (f' w)) : Relocated ρ R (s.mapValues f) (t.mapValues f') where
  source := hr.source
  target := hr.target
  size_eq := by rw [size_slots_mapValues, size_slots_mapValues, hr.size_eq]
  handles_eq := by rw [handles_mapValues, handles_mapValues, hr.handles_eq]
  related {g x} hg := by
    rw [find_mapValues] at hg ⊢
    rcases hr.find_cases g with ⟨v, w, hv, hw, hvw⟩ | ⟨cause, hv, -⟩
    · rw [hv] at hg
      cases hg
      exact ⟨f' w, by rw [hw]; rfl, hf v w hvw⟩
    · rw [hv] at hg
      cases hg

/-- A store in which nothing is live any more goes on from an empty one. -/
theorem of_empty (t : Store k γ) (htarget : t.program = ρ.target) (hnone : t.handles = [])
    (hsize : t.slots.size = 0 + ρ.offset k) : Relocated ρ R (empty k β ρ.source) t where
  source := rfl
  target := htarget
  size_eq := hsize
  handles_eq := hnone
  related hf := by
    rw [← mem_toList_iff] at hf
    cases hf

theorem values_related (hr : Relocated ρ R s t) {i : Nat} {v : β} (hv : s.values[i]? = some v) :
    ∃ w, t.values[i]? = some w ∧ R v w := by
  obtain ⟨h, hh, hf⟩ := exists_handle_of_values hv
  obtain ⟨w, hw, hvw⟩ := hr.related hf
  refine ⟨w, getElem?_values_of_handles ?_ hw, hvw⟩
  rw [hr.handles_eq, List.getElem?_map, hh, Option.map_some]

theorem length_values (hr : Relocated ρ R s t) : t.values.length = s.values.length := by
  rw [Store.length_values, Store.length_values, ← length_handles, ← length_handles, hr.handles_eq,
    List.length_map]

theorem map_values_eq (hr : Relocated ρ R s t) {δ : Type} {view : β → δ} {view' : γ → δ}
    (hview : ∀ v w, R v w → view v = view' w) : s.values.map view = t.values.map view' := by
  refine List.ext_getElem (by simp [hr.length_values]) ?_
  intro i hi hi'
  rw [List.length_map] at hi
  obtain ⟨w, hw, hvw⟩ := hr.values_related (List.getElem?_eq_getElem hi)
  rw [List.getElem_map, List.getElem_map, hview _ _ hvw]
  obtain ⟨-, rfl⟩ := List.getElem?_eq_some_iff.1 hw
  rfl

end Relocated

end Store

end Socp
