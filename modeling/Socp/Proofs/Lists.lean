import Mathlib.Data.List.Nodup
import Mathlib.Data.List.Sort

/-!
Facts about lists that more than one part of the library uses.
-/

namespace Socp

theorem lookup_eq_some_iff_mem {κ β : Type} [DecidableEq κ] {l : List (κ × β)}
    (hkeys : (l.map (·.1)).Nodup) {k : κ} {b : β} : l.lookup k = some b ↔ (k, b) ∈ l := by
  induction l with
  | nil => simp
  | cons t l ih =>
      obtain ⟨hnot, hnodup⟩ := List.nodup_cons.1 hkeys
      rw [List.lookup_cons, List.mem_cons]
      by_cases hk : k = t.1
      · subst hk
        have hrest : (t.1, b) ∉ l := fun hmem => hnot (List.mem_map.2 ⟨_, hmem, rfl⟩)
        simp [hrest, Prod.ext_iff, eq_comm]
      · have hne : (k == t.1) = false := beq_eq_false_iff_ne.2 hk
        simp [hne, hk, ih hnodup, Prod.ext_iff]

theorem map_snd_filter_eq_lookup {κ β : Type} [DecidableEq κ] {l : List (κ × β)}
    (hkeys : (l.map (·.1)).Nodup) (k : κ) :
    (l.filter (·.1 = k)).map (·.2) = (l.lookup k).toList := by
  induction l with
  | nil => rfl
  | cons t l ih =>
      obtain ⟨hnot, hnodup⟩ := List.nodup_cons.1 hkeys
      by_cases hk : t.1 = k
      · subst hk
        have hrest : l.filter (·.1 = t.1) = [] := by
          rw [List.filter_eq_nil_iff]
          intro u hu
          have hne : u.1 ≠ t.1 := fun heq => hnot (List.mem_map.2 ⟨u, hu, heq⟩)
          simpa using hne
        rw [List.filter_cons_of_pos (by simp), hrest, List.lookup_cons, beq_self_eq_true]
        rfl
      · have hne : (k == t.1) = false := beq_eq_false_iff_ne.2 (Ne.symm hk)
        rw [List.filter_cons_of_neg (by simpa using hk), ih hnodup, List.lookup_cons, hne]

theorem filter_eq_map_lookup {κ β : Type} [DecidableEq κ] {l : List (κ × β)}
    (hkeys : (l.map (·.1)).Nodup) (k : κ) :
    l.filter (·.1 = k) = (l.lookup k).toList.map (k, ·) := by
  have hself : ∀ t ∈ l.filter (·.1 = k), (k, t.2) = t := by
    intro t ht
    have hk : t.1 = k := by simpa using (List.mem_filter.1 ht).2
    exact Prod.ext hk.symm rfl
  rw [← map_snd_filter_eq_lookup hkeys, List.map_map]
  exact ((List.map_congr_left hself).trans (List.map_id _)).symm

/-- A strict order leaves one way only to list the members. -/
theorem eq_of_pairwise_of_mem_iff {β : Type} {r : β → β → Prop} (hasymm : ∀ a b, r a b → ¬r b a)
    {l l' : List β} (hl : l.Pairwise r) (hl' : l'.Pairwise r) (hmem : ∀ b, b ∈ l ↔ b ∈ l') :
    l = l' := by
  have : Std.Antisymm r := ⟨fun a b hab hba => absurd hba (hasymm a b hab)⟩
  have : Std.Irrefl r := ⟨fun a ha => hasymm a a ha ha⟩
  exact List.Pairwise.eq_of_mem_iff hl hl' hmem

theorem pairwise_zipIdx {β : Type} (l : List β) : l.zipIdx.Pairwise fun a b => a.2 < b.2 := by
  rw [← List.pairwise_map, List.zipIdx_map_snd]
  exact List.pairwise_lt_range'

theorem pairwise_filterMap_zipIdx {β γ : Type} (f : β → Option γ) (l : List β) :
    (l.zipIdx.filterMap fun (b, i) => (f b).map (i, ·)).Pairwise fun s t => s.1 < t.1 := by
  refine List.Pairwise.filterMap _ ?_ (pairwise_zipIdx l)
  intro s t hst s' hs t' ht
  obtain ⟨a, -, rfl⟩ := Option.map_eq_some_iff.1 hs
  obtain ⟨b, -, rfl⟩ := Option.map_eq_some_iff.1 ht
  exact hst

theorem nodup_keys_filterMap_zipIdx {β γ : Type} (f : β → Option γ) (l : List β) :
    ((l.zipIdx.filterMap fun (b, i) => (f b).map (i, ·)).map (·.1)).Nodup := by
  rw [List.Nodup, List.pairwise_map]
  exact (pairwise_filterMap_zipIdx f l).imp Nat.ne_of_lt

theorem mem_filterMap_zipIdx {β γ : Type} {f : β → Option γ} {l : List β} {i : Nat} {c : γ} :
    (i, c) ∈ l.zipIdx.filterMap (fun (b, i) => (f b).map (i, ·)) ↔
      ∃ b, l[i]? = some b ∧ f b = some c := by
  rw [List.mem_filterMap]
  constructor
  · rintro ⟨⟨b, j⟩, hb, hc⟩
    obtain ⟨d, hd, heq⟩ := Option.map_eq_some_iff.1 hc
    cases heq
    exact ⟨b, List.mem_zipIdx_iff_getElem?.1 hb, hd⟩
  · rintro ⟨b, hb, hc⟩
    refine ⟨(b, i), List.mem_zipIdx_iff_getElem?.2 hb, ?_⟩
    show (f b).map (i, ·) = _
    rw [hc, Option.map_some]

theorem lookup_filterMap_zipIdx {β γ : Type} (f : β → Option γ) (l : List β) (i : Nat) :
    (l.zipIdx.filterMap fun (b, i) => (f b).map (i, ·)).lookup i = l[i]?.bind f := by
  ext c
  rw [lookup_eq_some_iff_mem (nodup_keys_filterMap_zipIdx f l), mem_filterMap_zipIdx,
    Option.bind_eq_some_iff]

/-- Where no entry repeats, the look-up of a position is the inverse of the look-up of an entry. -/
theorem idxOf?_eq_some_iff_getElem? {β : Type} [DecidableEq β] {l : List β} (hnodup : l.Nodup)
    {b : β} {i : Nat} : l.idxOf? b = some i ↔ l[i]? = some b := by
  rw [List.idxOf?_eq_some_iff, List.getElem?_eq_some_iff]
  constructor
  · rintro ⟨hi, hb, -⟩
    exact ⟨hi, hb⟩
  · rintro ⟨hi, hb⟩
    refine ⟨hi, hb, ?_⟩
    intro j hj heq
    have hij : j = i := hnodup.getElem_inj_iff.1 (heq.trans hb.symm)
    omega

theorem idxOf?_eq_some_idxOf {β : Type} [DecidableEq β] {l : List β} {b : β} (hb : b ∈ l) :
    l.idxOf? b = some (l.idxOf b) := by
  cases h : l.idxOf? b with
  | none => exact absurd hb (List.idxOf?_eq_none_iff.1 h)
  | some i => rw [List.idxOf_eq_getD_idxOf?, h, Option.getD_some]

theorem mapM_eq_pure {m : Type → Type} [Monad m] [LawfulMonad m] {β γ : Type} {f : β → m γ}
    {g : β → γ} {l : List β} (h : ∀ b ∈ l, f b = pure (g b)) : l.mapM f = pure (l.map g) := by
  induction l with
  | nil => rfl
  | cons b l ih =>
      have hrest := ih fun b' hb' => h b' (List.mem_cons_of_mem b hb')
      rw [List.mapM_cons, h b List.mem_cons_self, pure_bind, hrest, pure_bind, List.map_cons]

theorem length_of_mapM_eq_ok {ε β γ : Type} {f : β → Except ε γ} {l : List β} {r : List γ}
    (h : l.mapM f = .ok r) : r.length = l.length := by
  induction l generalizing r with
  | nil =>
      cases h
      rfl
  | cons b l ih =>
      rw [List.mapM_cons] at h
      cases hb : f b with
      | error e =>
          rw [hb] at h
          cases h
      | ok c =>
          cases hl : l.mapM f with
          | error e =>
              rw [hb, hl] at h
              cases h
          | ok cs =>
              rw [hb, hl] at h
              cases h
              rw [List.length_cons, List.length_cons, ih hl]

theorem foldlM_flatten {β γ : Type} (f : γ → β → Option γ) (ls : List (List β)) (start : γ) :
    ls.flatten.foldlM f start = ls.foldlM (fun s l => l.foldlM f s) start := by
  induction ls generalizing start with
  | nil => rfl
  | cons l ls ih =>
      rw [List.flatten_cons, List.foldlM_append, List.foldlM_cons]
      congr 1
      funext s
      exact ih s

/-- Taking out everything with a key of a stretch cuts the stretch out, where no key repeats. -/
theorem filter_not_mem_stretch {κ β : Type} [DecidableEq κ] (key : β → κ)
    {before stretch after : List β} (h : ((before ++ (stretch ++ after)).map key).Nodup) :
    (before ++ (stretch ++ after)).filter (key · ∉ stretch.map key) = before ++ after := by
  rw [List.map_append, List.map_append] at h
  obtain ⟨-, hrest, hbefore⟩ := List.nodup_append.1 h
  obtain ⟨-, -, hafter⟩ := List.nodup_append.1 hrest
  have hstretch : stretch.filter (key · ∉ stretch.map key) = [] := by
    rw [List.filter_eq_nil_iff]
    intro b hb
    simpa using ⟨b, hb, rfl⟩
  rw [List.filter_append, List.filter_append, hstretch, List.nil_append]
  congr 1
  · rw [List.filter_eq_self]
    intro b hb
    have hnot : key b ∉ stretch.map key := fun hm =>
      hbefore _ (List.mem_map_of_mem hb) _ (List.mem_append_left _ hm) rfl
    simpa using hnot
  · rw [List.filter_eq_self]
    intro b hb
    have hnot : key b ∉ stretch.map key := fun hm => hafter _ hm _ (List.mem_map_of_mem hb) rfl
    simpa using hnot

/-- When all parts of an entry are kept or dropped with it, the entries can be filtered first. -/
theorem filter_flatMap_of_forall {β γ : Type} {f : β → List γ} {q : γ → Bool} {r : β → Bool}
    {l : List β} (h : ∀ b ∈ l, ∀ c ∈ f b, q c = r b) :
    (l.flatMap f).filter q = (l.filter r).flatMap f := by
  induction l with
  | nil => rfl
  | cons b l ih =>
      obtain ⟨hb, hl⟩ := List.forall_mem_cons.1 h
      rw [List.flatMap_cons, List.filter_append, ih hl, List.filter_cons]
      cases hr : r b with
      | true =>
          have hall : (f b).filter q = f b :=
            List.filter_eq_self.2 fun c hc => (hb c hc).trans hr
          rw [if_pos rfl, hall, List.flatMap_cons]
      | false =>
          have hnone : (f b).filter q = [] :=
            List.filter_eq_nil_iff.2 fun c hc => by simp [hb c hc, hr]
          rw [if_neg Bool.false_ne_true, hnone, List.nil_append]

/-- A list without a repetition under any one key is without a repetition. -/
theorem nodup_of_nodup_filter {κ β : Type} [DecidableEq κ] (key : β → κ) {l : List β}
    (h : ∀ a, (l.filter (key · = a)).Nodup) : l.Nodup := by
  rw [List.nodup_iff_sublist]
  intro b hb
  have hfilter := hb.filter (key · = key b)
  exact List.nodup_iff_sublist.1 (h (key b)) b (by simpa using hfilter)

end Socp
