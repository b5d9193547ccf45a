import Socp.Proofs.Store.Listing

/-!
Replacing or removing several entries one after the other. A handle that names nothing is passed
over by a replacement, so the result always exists; on live handles it is what a sequence of updates
leaves behind.
-/

namespace Socp

namespace Store

variable {k : Entity} {β : Type}

/-- Replaces the entry that a handle names, if there is one. -/
def adjust (s : Store k β) (h : Handle k) (f : β → β) : Store k β :=
  match s.find h with
  | .ok v => s.assign h.slot (some (f v))
  | .error _ => s

theorem adjust_congr {s : Store k β} {h : Handle k} {f g : β → β}
    (hfg : ∀ v, s.find h = .ok v → f v = g v) : s.adjust h f = s.adjust h g := by
  unfold adjust
  split
  case h_1 v hf => rw [hfg v hf]
  case h_2 => rfl

theorem update_eq_adjust {s : Store k β} {h : Handle k} {v : β} (hf : s.find h = .ok v)
    (f : β → β) : s.update h f = .ok (s.adjust h f) := by
  rw [update_eq_ok_iff]
  exact ⟨v, hf, by rw [adjust, hf]⟩

theorem update_eq_error {s : Store k β} {h : Handle k} {e : ProgramError} (hf : s.find h = .error e)
    (f : β → β) : s.update h f = .error e := by
  rw [update, hf]
  rfl

theorem find_adjust (s : Store k β) (h : Handle k) (f : β → β) (other : Handle k) :
    (s.adjust h f).find other = if other = h then (s.find h).map f else s.find other := by
  unfold adjust
  cases hf : s.find h with
  | ok v =>
      simp only [find_assign hf, Option.elim_some]
      rfl
  | error e =>
      by_cases ho : other = h
      · rw [if_pos ho, ho, hf]
        rfl
      · rw [if_neg ho]

theorem find_adjust_cases {s : Store k β} {h : Handle k} {f : β → β} {g : Handle k} {w : β}
    (hg : (s.adjust h f).find g = .ok w) : ∃ v, s.find g = .ok v ∧ (w = v ∨ w = f v) := by
  rw [find_adjust] at hg
  split at hg
  case isTrue heq =>
    subst heq
    cases hf : s.find g with
    | ok v =>
        rw [hf] at hg
        cases hg
        exact ⟨v, rfl, .inr rfl⟩
    | error e =>
        rw [hf] at hg
        cases hg
  case isFalse => exact ⟨w, hg, .inl rfl⟩

@[simp] theorem program_adjust (s : Store k β) (h : Handle k) (f : β → β) :
    (s.adjust h f).program = s.program := by
  unfold adjust
  split
  · exact program_assign ..
  · rfl

@[simp] theorem handles_adjust (s : Store k β) (h : Handle k) (f : β → β) :
    (s.adjust h f).handles = s.handles := by
  unfold adjust
  split
  case h_1 hf => exact handles_assign_some hf _
  case h_2 => rfl

theorem exists_toList_adjust {s : Store k β} {h : Handle k} {v : β} (hf : s.find h = .ok v)
    (f : β → β) :
    ∃ before after, s.toList = before ++ (h, v) :: after ∧
      (s.adjust h f).toList = before ++ (h, f v) :: after := by
  obtain ⟨before, after, hl, hkeep⟩ := exists_toList_eq hf
  refine ⟨before, after, hl, ?_⟩
  have hother : ∀ l : List (Handle k × β), (∀ e ∈ l, e.1 ≠ h) →
      (l.map fun e => if e.1 = h then (h, f v) else e) = l := fun l hl =>
    (List.map_congr_left fun e he => if_neg (hl e he)).trans (List.map_id l)
  rw [List.forall_mem_append] at hkeep
  rw [adjust, hf]
  dsimp only
  rw [toList_assign_some hf, hl, List.map_append, List.map_cons, if_pos rfl,
    hother before hkeep.1, hother after hkeep.2]

def adjustAll (s : Store k β) (l : List (Handle k × (β → β))) : Store k β :=
  l.foldl (fun s t => s.adjust t.1 t.2) s

@[simp] theorem adjustAll_nil (s : Store k β) : s.adjustAll [] = s := rfl

@[simp] theorem adjustAll_cons (s : Store k β) (t : Handle k × (β → β))
    (l : List (Handle k × (β → β))) :
    s.adjustAll (t :: l) = (s.adjust t.1 t.2).adjustAll l := rfl

@[simp] theorem handles_adjustAll (s : Store k β) (l : List (Handle k × (β → β))) :
    (s.adjustAll l).handles = s.handles := by
  induction l generalizing s with
  | nil => rfl
  | cons t l ih => rw [adjustAll_cons, ih, handles_adjust]

@[simp] theorem size_adjustAll (s : Store k β) (l : List (Handle k × (β → β))) :
    (s.adjustAll l).size = s.size := by
  rw [← length_handles, handles_adjustAll, length_handles]

theorem find_adjustAll_of_not_mem {s : Store k β} {l : List (Handle k × (β → β))} {h : Handle k}
    (hl : h ∉ l.map (·.1)) : (s.adjustAll l).find h = s.find h := by
  induction l generalizing s with
  | nil => rfl
  | cons t l ih =>
      rw [List.map_cons, List.mem_cons, not_or] at hl
      rw [adjustAll_cons, ih hl.2, find_adjust, if_neg hl.1]

/-- With each handle named once, each entry gets its own function. -/
theorem find_adjustAll {s : Store k β} {l : List (Handle k × (β → β))}
    (hl : (l.map (·.1)).Nodup) {h : Handle k} {f : β → β} (hmem : (h, f) ∈ l) :
    (s.adjustAll l).find h = (s.find h).map f := by
  induction l generalizing s with
  | nil => cases hmem
  | cons t l ih =>
      obtain ⟨hnot, hnodup⟩ := List.nodup_cons.1 hl
      rw [adjustAll_cons]
      rcases List.mem_cons.1 hmem with rfl | hmem
      · -- no later replacement names the handle again
        rw [find_adjustAll_of_not_mem hnot, find_adjust, if_pos rfl]
      · have hne : h ≠ t.1 := by
          rintro rfl
          exact hnot (List.mem_map.2 ⟨_, hmem, rfl⟩)
        rw [ih hnodup hmem, find_adjust, if_neg hne]

theorem find_adjust_error {s : Store k β} {h : Handle k} {f : β → β} {g : Handle k}
    {e : ProgramError} : (s.adjust h f).find g = .error e ↔ s.find g = .error e := by
  rw [find_adjust]
  split
  case isTrue heq =>
    subst heq
    cases s.find g <;> simp [Except.map]
  case isFalse => rfl

theorem find_adjustAll_error {s : Store k β} {l : List (Handle k × (β → β))} {h : Handle k}
    {e : ProgramError} : (s.adjustAll l).find h = .error e ↔ s.find h = .error e := by
  induction l generalizing s with
  | nil => rfl
  | cons t l ih => rw [adjustAll_cons, ih, find_adjust_error]

theorem map_values_adjust {γ : Type} {s : Store k β} {h : Handle k} {f : β → β} {view : β → γ}
    (hview : ∀ v, view (f v) = view v) : (s.adjust h f).values.map view = s.values.map view := by
  unfold adjust
  split
  case h_1 v hf =>
    rw [values, toList_assign_some hf, values, List.map_map, List.map_map, List.map_map]
    refine List.map_congr_left ?_
    rintro ⟨g, w⟩ hmem
    by_cases hg : g = h
    · subst hg
      have hw := mem_toList_iff.1 hmem
      rw [hf] at hw
      cases hw
      simp [hview]
    · simp [hg]
  case h_2 => rfl

theorem map_values_adjustAll {γ : Type} {s : Store k β} {l : List (Handle k × (β → β))}
    {view : β → γ} (hview : ∀ t ∈ l, ∀ v, view (t.2 v) = view v) :
    (s.adjustAll l).values.map view = s.values.map view := by
  induction l generalizing s with
  | nil => rfl
  | cons t l ih =>
      rw [adjustAll_cons, ih fun t' ht' => hview t' (List.mem_cons_of_mem t ht'),
        map_values_adjust (hview t List.mem_cons_self)]

/-- A replacement for every live entry, in order, puts the new value of each in its place. -/
theorem getElem?_values_adjustAll {s : Store k β} {l : List (Handle k × (β → β))}
    (hl : l.map (·.1) = s.handles) {i : Nat} {h : Handle k} {f : β → β} (hi : l[i]? = some (h, f)) :
    ∃ v, (s.adjustAll l).values[i]? = some (f v) := by
  have hhandle : s.handles[i]? = some h := by
    rw [← hl, List.getElem?_map, hi, Option.map_some]
  obtain ⟨v, hv⟩ := mem_handles_iff.1 (List.mem_of_getElem? hhandle)
  have hnodup : (l.map (·.1)).Nodup := hl ▸ s.handles_nodup
  have hfind : (s.adjustAll l).find h = .ok (f v) := by
    rw [find_adjustAll hnodup (List.mem_of_getElem? hi), hv]
    rfl
  refine ⟨v, getElem?_values_of_handles ?_ hfind⟩
  rw [handles_adjustAll]
  exact hhandle

/-- What replacements set in every value is what the list of values shows afterwards. -/
theorem map_values_adjustAll_of_set {γ δ : Type} {s : Store k β} {es : List δ}
    {t : δ → Handle k × (β → β)} (hes : (es.map t).map (·.1) = s.handles) {view : β → γ}
    {set : δ → γ} (hset : ∀ e v, view ((t e).2 v) = set e) :
    (s.adjustAll (es.map t)).values.map view = es.map set := by
  have hlen : es.length = s.size := by
    rw [← length_handles, ← hes, List.length_map, List.length_map]
  apply List.ext_getElem?
  intro i
  by_cases hi : i < es.length
  · have hget : (es.map t)[i]? = some ((t es[i]).1, (t es[i]).2) := by
      rw [List.getElem?_map, List.getElem?_eq_getElem hi, Option.map_some]
    obtain ⟨v, hv⟩ := getElem?_values_adjustAll hes hget
    rw [List.getElem?_map, hv, Option.map_some, hset, List.getElem?_map,
      List.getElem?_eq_getElem hi, Option.map_some]
  · have hi' : es.length ≤ i := Nat.le_of_not_lt hi
    rw [List.getElem?_eq_none, List.getElem?_eq_none]
    · rwa [List.length_map]
    · rwa [List.length_map, length_values, size_adjustAll, ← hlen]

/-! ### Removal -/

/-- Empties the slots of the handles. -/
def clear (s : Store k β) (hs : List (Handle k)) : Store k β :=
  hs.foldl (fun s h => s.assign h.slot none) s

@[simp] theorem clear_nil (s : Store k β) : s.clear [] = s := rfl

@[simp] theorem clear_cons (s : Store k β) (h : Handle k) (hs : List (Handle k)) :
    s.clear (h :: hs) = (s.assign h.slot none).clear hs := rfl

@[simp] theorem program_clear (s : Store k β) (hs : List (Handle k)) :
    (s.clear hs).program = s.program := by
  induction hs generalizing s with
  | nil => rfl
  | cons h hs ih => rw [clear_cons, ih, program_assign]

theorem live_assign_none {s : Store k β} {h : Handle k} {hs : List (Handle k)}
    (hnodup : (h :: hs).Nodup) (hlive : ∀ g ∈ h :: hs, g ∈ s.handles) :
    ∀ g ∈ hs, g ∈ (s.assign h.slot none).handles := by
  intro g hg
  obtain ⟨old, hf⟩ := mem_handles_iff.1 (hlive h List.mem_cons_self)
  rw [handles_assign_none hf, List.mem_filter]
  refine ⟨hlive g (List.mem_cons_of_mem h hg), ?_⟩
  have hne : g ≠ h := by
    rintro rfl
    exact (List.nodup_cons.1 hnodup).1 hg
  simpa using hne

theorem find_clear {s : Store k β} {hs : List (Handle k)} (hnodup : hs.Nodup)
    (hlive : ∀ h ∈ hs, h ∈ s.handles) (g : Handle k) :
    (s.clear hs).find g = if g ∈ hs then .error (.staleHandle k) else s.find g := by
  induction hs generalizing s with
  | nil => rfl
  | cons h hs ih =>
      obtain ⟨old, hf⟩ := mem_handles_iff.1 (hlive h List.mem_cons_self)
      rw [clear_cons, ih (List.nodup_cons.1 hnodup).2 (live_assign_none hnodup hlive),
        find_assign hf]
      by_cases hg : g = h <;> simp [hg]

theorem toList_clear {s : Store k β} {hs : List (Handle k)} (hnodup : hs.Nodup)
    (hlive : ∀ h ∈ hs, h ∈ s.handles) :
    (s.clear hs).toList = s.toList.filter fun e => e.1 ∉ hs := by
  refine toList_eq_of_sorted (s.toList_sorted.filter _) ?_
  intro g v
  rw [find_clear hnodup hlive, List.mem_filter, mem_toList_iff]
  by_cases hg : g ∈ hs <;> simp [hg]

theorem handles_clear {s : Store k β} {hs : List (Handle k)} (hnodup : hs.Nodup)
    (hlive : ∀ h ∈ hs, h ∈ s.handles) : (s.clear hs).handles = s.handles.filter (· ∉ hs) := by
  rw [handles, toList_clear hnodup hlive, handles, List.filter_map]
  rfl

end Store

end Socp
