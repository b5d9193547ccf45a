import Socp.Proofs.Store.Batch

/-!
Changes of a store that can trade places. A removal and a replacement touch one slot and look at
nothing else, so the order of removals never matters, and that of replacements matters only where
their functions do not commute.
-/

namespace Socp

variable {β : Type}

/-- A slot after the removal of its entry; an empty one stays as it is. -/
def Slot.retire (place : Slot β) : Slot β :=
  if place.isLive then ⟨place.generation + 1, none⟩ else place

/-- A slot after a replacement by the handle of a generation. -/
def Slot.revise (generation : Nat) (f : β → β) (place : Slot β) : Slot β :=
  { place with value := if place.generation = generation then place.value.map f else place.value }

theorem Slot.revise_revise_comm {g g' : Nat} {f f' : β → β} (hcomm : ∀ v, f (f' v) = f' (f v))
    (place : Slot β) :
    (place.revise g' f').revise g f = (place.revise g f).revise g' f' := by
  have hvalue : (place.value.map f').map f = (place.value.map f).map f' := by
    rw [Option.map_map, Option.map_map, show f ∘ f' = f' ∘ f from funext hcomm]
  unfold revise
  dsimp only
  split <;> split <;> simp only [hvalue]

theorem Slot.revise_id (generation : Nat) (place : Slot β) :
    place.revise generation id = place := by
  rw [revise, Option.map_id, id, ite_self]

theorem Slot.map_value_revise {γ : Type} {g : Nat} {f : β → β} {f' : γ → γ} {view : β → γ}
    (hcomm : ∀ v, view (f v) = f' (view v)) (place : Slot β) :
    (place.revise g f).value.map view =
      (Slot.revise g f' ⟨place.generation, place.value.map view⟩).value := by
  have hcomp : view ∘ f = f' ∘ view := funext hcomm
  simp only [revise]
  split <;> simp only [Option.map_map, hcomp]

namespace Store

variable {k : Entity}

/-- The slots and the number of the program make up a store; the count follows. -/
theorem eq_of_slots {s t : Store k β} (hprogram : s.program = t.program)
    (hslots : s.slots = t.slots) : s = t := by
  obtain ⟨program, slots, live, hlive⟩ := s
  obtain ⟨program', slots', live', hlive'⟩ := t
  dsimp only at hprogram hslots
  subst hprogram hslots hlive hlive'
  rfl

theorem modify_modify_comm {places : Array (Slot β)} {i j : Nat} {f g : Slot β → Slot β}
    (hcomm : ∀ place, f (g place) = g (f place)) :
    (places.modify i f).modify j g = (places.modify j g).modify i f := by
  apply Array.ext_getElem?
  intro n
  simp only [Array.getElem?_modify]
  by_cases hi : i = n <;> by_cases hj : j = n <;> simp [hi, hj, Function.comp_def, hcomm]

theorem map_modify {δ ε : Type} {xs : Array δ} {i : Nat} {f : δ → δ} {f' : ε → ε} {g : δ → ε}
    (hcomm : ∀ x, xs[i]? = some x → g (f x) = f' (g x)) :
    (xs.modify i f).map g = (xs.map g).modify i f' := by
  apply Array.ext_getElem?
  intro n
  simp only [Array.getElem?_map, Array.getElem?_modify]
  split
  case isTrue hn =>
    subst hn
    cases hx : xs[i]? with
    | none => rfl
    | some x => exact congrArg some (hcomm x hx)
  case isFalse => rfl

/-! ### Removals -/

theorem slots_assign_none (s : Store k β) (slot : Nat) :
    (s.assign slot none).slots = s.slots.modify slot Slot.retire := by
  apply Array.ext_getElem?
  intro n
  rw [Array.getElem?_modify, assign]
  split
  case h_1 generation old hp =>
    rw [Array.getElem?_setIfInBounds]
    by_cases hn : slot = n
    · subst hn
      have hlt : slot < s.slots.size := (Array.getElem?_eq_some_iff.1 hp).1
      rw [if_pos rfl, if_pos rfl, if_pos hlt, hp]
      rfl
    · rw [if_neg hn, if_neg hn]
  case h_2 hp =>
    by_cases hn : slot = n
    · subst hn
      rw [if_pos rfl]
      rcases hs : s.slots[slot]? with _ | ⟨generation, _ | old⟩
      · rfl
      · rfl
      · exact absurd hs (hp generation old)
    · rw [if_neg hn]

theorem assign_none_comm (s : Store k β) (i j : Nat) :
    (s.assign i none).assign j none = (s.assign j none).assign i none := by
  apply eq_of_slots
  · simp
  · simp only [slots_assign_none]
    exact modify_modify_comm fun _ => rfl

theorem clear_append (s : Store k β) (hs gs : List (Handle k)) :
    s.clear (hs ++ gs) = (s.clear hs).clear gs :=
  List.foldl_append

theorem clear_perm (s : Store k β) {hs gs : List (Handle k)} (hperm : hs.Perm gs) :
    s.clear hs = s.clear gs :=
  hperm.foldl_eq' (fun h _ g _ s => s.assign_none_comm h.slot g.slot) s

theorem clear_clear_comm (s : Store k β) (hs gs : List (Handle k)) :
    (s.clear hs).clear gs = (s.clear gs).clear hs := by
  rw [← clear_append, ← clear_append]
  exact s.clear_perm List.perm_append_comm

theorem mapValues_assign_none (s : Store k β) (f : β → β) (slot : Nat) :
    (s.mapValues f).assign slot none = (s.assign slot none).mapValues f := by
  apply eq_of_slots
  · simp
  · simp only [mapValues, slots_assign_none]
    refine (map_modify ?_).symm
    rintro ⟨generation, _ | v⟩ - <;> rfl

/-! ### Replacements -/

theorem slots_assign_some {s : Store k β} {slot g : Nat} {old : β}
    (he : s.slots[slot]? = some ⟨g, some old⟩) (v : β) :
    (s.assign slot (some v)).slots = s.slots.setIfInBounds slot ⟨g, some v⟩ := by
  unfold assign
  split
  case h_1 hp =>
    rw [he] at hp
    cases hp
    rfl
  case h_2 hp => exact absurd he (hp g old)

theorem slots_adjust (s : Store k β) (h : Handle k) (f : β → β) :
    (s.adjust h f).slots =
      if h.program = s.program then s.slots.modify h.slot (Slot.revise h.generation f)
      else s.slots := by
  unfold adjust
  split
  case h_1 v hf =>
    obtain ⟨hp, he⟩ := find_eq_ok_iff.1 hf
    rw [entryAt?_eq_some_iff] at he
    rw [if_pos hp, slots_assign_some he]
    apply Array.ext_getElem?
    intro n
    rw [Array.getElem?_modify, Array.getElem?_setIfInBounds]
    by_cases hn : h.slot = n
    · have hlt : h.slot < s.slots.size := (Array.getElem?_eq_some_iff.1 he).1
      rw [if_pos hn, if_pos hn, if_pos hlt, ← hn, he, Option.map_some, Slot.revise, if_pos rfl,
        Option.map_some]
    · rw [if_neg hn, if_neg hn]
  case h_2 e hf =>
    split
    case isFalse => rfl
    case isTrue hp =>
      apply Array.ext_getElem?
      intro n
      rw [Array.getElem?_modify]
      by_cases hn : h.slot = n
      · subst hn
        rw [if_pos rfl]
        rcases hs : s.slots[h.slot]? with _ | ⟨generation, _ | old⟩
        · rfl
        · simp only [Option.map_some, Slot.revise, Option.map_none, ite_self]
        · -- an entry of the generation would have been found
          have hg : generation ≠ h.generation := by
            rintro rfl
            rw [find_eq_ok_iff.2 ⟨hp, entryAt?_eq_some_iff.2 hs⟩] at hf
            cases hf
          simp only [Option.map_some, Slot.revise, if_neg hg]
      · rw [if_neg hn]

theorem adjust_comm (s : Store k β) (h g : Handle k) {f f' : β → β}
    (hcomm : ∀ v, f (f' v) = f' (f v)) :
    (s.adjust h f).adjust g f' = (s.adjust g f').adjust h f := by
  apply eq_of_slots
  · simp
  · simp only [slots_adjust, program_adjust]
    by_cases hh : h.program = s.program <;> by_cases hg : g.program = s.program <;>
      simp only [hh, hg, if_true, if_false]
    exact modify_modify_comm (Slot.revise_revise_comm hcomm)

theorem adjustAll_append (s : Store k β) (l m : List (Handle k × (β → β))) :
    s.adjustAll (l ++ m) = (s.adjustAll l).adjustAll m :=
  List.foldl_append

/-- What replacements by commuting functions come to does not depend on their order. -/
theorem adjustAll_perm (s : Store k β) {l m : List (Handle k × (β → β))} (hperm : l.Perm m)
    (hcomm : ∀ t ∈ l, ∀ u ∈ l, ∀ v, t.2 (u.2 v) = u.2 (t.2 v)) : s.adjustAll l = s.adjustAll m :=
  hperm.foldl_eq' (fun t ht u hu s => s.adjust_comm t.1 u.1 (hcomm t ht u hu)) s

theorem adjust_id (s : Store k β) (h : Handle k) : s.adjust h id = s := by
  apply eq_of_slots
  · simp
  · apply Array.ext_getElem?
    intro n
    rw [slots_adjust, funext (Slot.revise_id h.generation)]
    split
    case isTrue => rw [Array.getElem?_modify, Option.map_id_fun', id, ite_self]
    case isFalse => rfl

theorem mapValues_adjust_comm (s : Store k β) (h : Handle k) {f f' view : β → β}
    (hcomm : ∀ v, view (f v) = f' (view v)) :
    (s.adjust h f).mapValues view = (s.mapValues view).adjust h f' := by
  apply eq_of_slots
  · simp
  · simp only [mapValues, slots_adjust]
    split
    case isTrue =>
      exact map_modify fun place _ =>
        congrArg (Slot.mk place.generation) (place.map_value_revise hcomm)
    case isFalse => rfl

theorem mapValues_adjust {s : Store k β} {h : Handle k} {f view : β → β}
    (hview : ∀ v, view (f v) = view v) : (s.adjust h f).mapValues view = s.mapValues view :=
  (s.mapValues_adjust_comm h hview).trans ((s.mapValues view).adjust_id h)

theorem mapValues_adjustAll {s : Store k β} {l : List (Handle k × (β → β))} {view : β → β}
    (hview : ∀ t ∈ l, ∀ v, view (t.2 v) = view v) :
    (s.adjustAll l).mapValues view = s.mapValues view := by
  induction l generalizing s with
  | nil => rfl
  | cons t l ih =>
      rw [adjustAll_cons, ih fun u hu => hview u (List.mem_cons_of_mem t hu),
        mapValues_adjust (hview t List.mem_cons_self)]

theorem mapValues_adjustAll_comm (s : Store k β) {l : List (Handle k × (β → β))} {g : β → β}
    (hcomm : ∀ t ∈ l, ∀ v, g (t.2 v) = t.2 (g v)) :
    (s.adjustAll l).mapValues g = (s.mapValues g).adjustAll l := by
  induction l generalizing s with
  | nil => rfl
  | cons t l ih =>
      rw [adjustAll_cons, ih _ fun u hu => hcomm u (List.mem_cons_of_mem t hu),
        mapValues_adjust_comm _ _ (hcomm t List.mem_cons_self), adjustAll_cons]

end Store

end Socp
