import Socp.Proofs.Store.Packed

/-!
Handles in words never alias, as long as there are no more entries than a word can number. Each one
that was issued stands for its own entry until that is removed and is refused as stale from then on,
and those of another program are refused as foreign.
-/

namespace Socp

open Arena

variable {k : Entity} {β : Type}

namespace PackedStore

/-! ### How a handle is answered -/

/-- Nothing can be done through a handle, for one and the same reason. -/
structure Refuses (s : PackedStore k β) (w : PackedHandle k) (cause : ProgramError) : Prop where
  check_eq : s.check w = .error cause
  find_eq : s.find w = .error cause
  update_eq : ∀ f, s.update w f = .error cause
  remove_eq : s.remove w = .error cause

/-- An entry can be read, replaced and taken out through a handle. -/
structure Yields (s : PackedStore k β) (w : PackedHandle k) (v : β) : Prop where
  check_eq : s.check w = .ok ()
  find_eq : s.find w = .ok v
  update_eq : ∀ f, ∃ t, s.update w f = .ok t ∧ t.find w = .ok (f v)
  remove_eq : ∃ t, s.remove w = .ok (v, t) ∧ t.find w = .error (.staleHandle k)

theorem refuses_of_slotOf {s : PackedStore k β} {w : PackedHandle k} {cause : ProgramError}
    (h : s.slotOf w = .error cause) : s.Refuses w cause := by
  constructor
  case check_eq => rw [check, h]; rfl
  case find_eq => rw [find, h]; rfl
  case update_eq =>
    intro f
    rw [update, h]
    rfl
  case remove_eq => rw [remove, h]; rfl

theorem refuses_of_program_ne {s : PackedStore k β} {w : PackedHandle k}
    (hne : w.program ≠ s.program) : s.Refuses w (.foreignHandle k) :=
  refuses_of_slotOf (if_pos hne)

/-- A store knows its handles. Those that were issued come in order. Those of them that were not
removed are the ones listed and stand for an entry each, those that were removed are stale, and
those of another program are foreign. -/
structure Knows (s : PackedStore k β) (issued removed : List (PackedHandle k)) : Prop where
  increasing : issued.Pairwise (· < ·)
  handles_eq : s.handles = issued.filter (· ∉ removed)
  live : ∀ w ∈ issued, w ∉ removed → ∃ v, s.Yields w v
  stale : ∀ w ∈ removed, s.Refuses w (.staleHandle k)
  foreign : ∀ w, w.program ≠ s.program → s.Refuses w (.foreignHandle k)

/-- A store is true to its handles over a list of changes. -/
structure TrueToHandles (program : UInt32) (cs : List (Change (PackedHandle k) β)) : Prop where
  nodup : (issuedBy (empty k β program) cs).Nodup
  knows : (applyAll (empty k β program) cs).Knows (issuedBy (empty k β program) cs)
    (removedBy (empty k β program) cs)
  /-- Whatever came before an insertion and whatever comes after it, its handle stands for the value
  inserted with it, as changed through this handle since, until the entry is removed. -/
  find_eq : ∀ before v after, cs = before ++ .insert v :: after →
    let w := ((applyAll (empty k β program) before).insert v).1
    (applyAll (empty k β program) cs).find w =
      Store.standing k (after.foldl (fun o c => c.act w o) (some v))

end PackedStore

namespace Store

variable {s : Store k β} {issued removed : List (Handle k)} {w : PackedHandle k}

theorem Fits.refuses_pack (hs : s.Fits) {cause : ProgramError}
    (hf : s.find w.unpack = .error cause) : s.pack.Refuses w cause := by
  apply PackedStore.refuses_of_slotOf
  rw [hs.slotOf_pack, hf]
  rfl

theorem Fits.of_handles (hs : s.Fits) {t : Store k β} (hprogram : t.program = s.program)
    (hhandles : ∀ h ∈ t.handles, h ∈ s.handles) : t.Fits where
  program_lt := by rw [hprogram]; exact hs.program_lt
  generation_lt := fun h hh => hs.generation_lt h (hhandles h hh)

theorem Fits.yields_pack (hs : s.Fits) {v : β} (hf : s.find w.unpack = .ok v) :
    s.pack.Yields w v where
  check_eq := by rw [hs.check_pack, hf]; rfl
  find_eq := by rw [hs.find_pack, hf]
  update_eq := by
    intro f
    have hu := update_eq_adjust hf f
    have hadjusted : (s.adjust w.unpack f).Fits := hs.of_handles (by simp) (by simp)
    refine ⟨(s.adjust w.unpack f).pack, ?_, ?_⟩
    · rw [hs.update_pack, hu]
      rfl
    · rw [hadjusted.find_pack, find_of_update hu, if_pos rfl, hf]
      rfl
  remove_eq := by
    have hr := remove_eq_ok_iff.2 ⟨hf, rfl⟩
    have hassigned : (s.assign w.unpack.slot none).Fits := by
      refine hs.of_handles (program_assign ..) fun h hh => ?_
      rw [handles_assign_none hf] at hh
      exact (List.mem_filter.1 hh).1
    refine ⟨(s.assign w.unpack.slot none).pack, ?_, ?_⟩
    · rw [hs.remove_pack, hr]
      rfl
    · rw [hassigned.find_pack, find_of_remove hr]

namespace Accounts

theorem stale_pack (ha : s.Accounts issued removed) (hprogram : s.program < 2 ^ 32)
    {h : Handle k} (hh : h ∈ removed) (hwords : h.pack.unpack = h) :
    s.pack.Refuses h.pack (.staleHandle k) := by
  apply (ha.fits hprogram).refuses_pack
  rw [hwords]
  cases hf : s.find h with
  | ok v =>
      have hlive : h ∈ s.handles := mem_handles_iff.2 ⟨v, hf⟩
      rw [ha.handles_eq] at hlive
      simp [hh] at hlive
  | error e =>
      rcases find_error hf with ⟨-, hne⟩ | ⟨rfl, -⟩
      · exact absurd (ha.program_eq (ha.removed_issued h hh)) hne
      · rfl

theorem knows_pack (ha : s.Accounts issued removed) (hprogram : s.program < 2 ^ 32)
    (hsize : s.slots.size ≤ 2 ^ 32) :
    s.pack.Knows (issued.map Handle.pack) (removed.map Handle.pack) := by
  have hs := ha.fits hprogram
  have hwords : ∀ h ∈ issued, h.pack.unpack = h := fun h hh => ha.unpack_pack hprogram hsize hh
  have hremoved : ∀ h ∈ issued, h.pack ∈ removed.map Handle.pack ↔ h ∈ removed := by
    intro h hh
    rw [List.mem_map]
    constructor
    · rintro ⟨g, hg, heq⟩
      rwa [← (Handle.pack_inj (hwords g (ha.removed_issued g hg)) (hwords h hh)).1 heq]
    · exact fun hmem => ⟨h, hmem, rfl⟩
  constructor
  case increasing =>
    rw [List.pairwise_map]
    exact ha.increasing.imp_of_mem fun hg hh hlt =>
      (Handle.pack_lt_pack (hwords _ hg) (hwords _ hh)).2 hlt
  case handles_eq =>
    rw [handles_pack, ha.handles_eq, List.filter_map]
    congr 1
    exact List.filter_congr fun h hh => by simp only [Function.comp_apply, hremoved h hh]
  case live =>
    intro w hw hnot
    obtain ⟨h, hh, rfl⟩ := List.mem_map.1 hw
    have hlive : h ∈ s.handles := by
      rw [ha.handles_eq, List.mem_filter, decide_eq_true_iff, ← hremoved h hh]
      exact ⟨hh, hnot⟩
    obtain ⟨v, hv⟩ := mem_handles_iff.1 hlive
    rw [← hwords h hh] at hv
    exact ⟨v, hs.yields_pack hv⟩
  case stale =>
    intro w hw
    obtain ⟨h, hh, rfl⟩ := List.mem_map.1 hw
    exact ha.stale_pack hprogram hh (hwords h (ha.removed_issued h hh))
  case foreign => exact fun w hne => PackedStore.refuses_of_program_ne hne

theorem find_pack_insert (ha : s.Accounts issued removed) (hprogram : s.program < 2 ^ 32) (v : β)
    (cs : List (Change (PackedHandle k) β))
    (hsize : (Arena.applyAll (s.insert v).2 (cs.map .unpack)).slots.size ≤ 2 ^ 32) :
    (Arena.applyAll (s.insert v).2 (cs.map .unpack)).pack.find s.nextHandle.pack =
      standing k (cs.foldl (fun o c => c.act s.nextHandle.pack o) (some v)) := by
  have hafter := (ha.insert v).applyAll (cs.map .unpack)
  have hlast : (Arena.applyAll (s.insert v).2 (cs.map .unpack)).program < 2 ^ 32 := by
    rwa [program_applyAll]
  have hwords : s.nextHandle.pack.unpack = s.nextHandle :=
    hafter.unpack_pack hlast hsize (by simp)
  rw [(hafter.fits hlast).find_pack, hwords]
  simp only [act_pack hwords]
  rw [show s.nextHandle = (s.insert v).1 from rfl, find_insert_applyAll, List.foldl_map]

end Accounts

/-! ### From one store to another -/

variable {γ : Type} {view : β → γ}

theorem Fits.leads_pack (hs : s.Fits) {c : Change (PackedHandle k) β} (hc : c.Keeps view) :
    Leads view s.pack (c.unpack.apply s).pack ((c.unpack.issued s).map Handle.pack)
      ((c.unpack.removed s).map Handle.pack) := by
  have hstep : Leads view s.pack _ _ _ := .of_apply c hc s.pack
  rwa [hs.apply_pack, s.issued_pack, hs.removed_pack] at hstep

/-- A change that is made can be made through words; one that is refused can be left out. -/
theorem Accounts.leads_pack (ha : s.Accounts issued removed) (hprogram : s.program < 2 ^ 32)
    (hsize : s.slots.size ≤ 2 ^ 32) {c : Change (Handle k) β} (hc : c.Keeps view) :
    Leads view s.pack (c.apply s).pack ((c.issued s).map Handle.pack)
      ((c.removed s).map Handle.pack) := by
  have hs := ha.fits hprogram
  have hwords : ∀ {h : Handle k} {v : β}, s.find h = .ok v → h.pack.unpack = h := by
    intro h v hf
    have hlive : h ∈ s.handles := mem_handles_iff.2 ⟨v, hf⟩
    rw [ha.handles_eq] at hlive
    exact ha.unpack_pack hprogram hsize (List.mem_filter.1 hlive).1
  cases c with
  | insert v => exact hs.leads_pack (c := .insert v) trivial
  | updateAll f => exact hs.leads_pack (c := .updateAll f) hc
  | update h f =>
      cases hf : s.find h with
      | ok v =>
          have hstep := hs.leads_pack (c := .update h.pack f) hc
          rwa [Change.unpack, hwords hf] at hstep
      | error e =>
          rw [apply_update, adjust, hf]
          exact .refl ..
  | remove h =>
      cases hf : s.find h with
      | ok v =>
          have hstep : Leads view _ _ _ _ := hs.leads_pack (c := .remove h.pack) trivial
          rwa [Change.unpack, hwords hf] at hstep
      | error e =>
          rw [apply_remove_of_error hf, removed_of_error hf]
          exact .refl ..

theorem Accounts.leads_pack_of_leads (ha : s.Accounts issued removed)
    (hprogram : s.program < 2 ^ 32) {t : Store k β} {issued' removed' : List (Handle k)}
    (hst : Leads view s t issued' removed') (hsize : t.slots.size ≤ 2 ^ 32) :
    Leads view s.pack t.pack (issued'.map Handle.pack) (removed'.map Handle.pack) := by
  obtain ⟨cs, rfl, rfl, rfl, hkeeps⟩ := hst
  induction cs generalizing s issued removed with
  | nil => exact .refl ..
  | cons c cs ih =>
      obtain ⟨hc, hcs⟩ := List.forall_mem_cons.1 hkeeps
      have hnow : s.slots.size ≤ 2 ^ 32 := (size_slots_le_applyAll s (c :: cs)).trans hsize
      have hrest := ih (ha.apply c) ((program_apply s c).trans_lt hprogram) hsize hcs
      rw [issuedBy, removedBy, List.map_append, List.map_append]
      exact (ha.leads_pack hprogram hnow hc).trans hrest

end Store

/-- Up to 2^32 insertions, no matter which other changes are made, a store in words is true to its
handles. -/
theorem PackedStore.trueToHandles (program : UInt32) (cs : List (Change (PackedHandle k) β))
    (hcs : (issuedBy (empty k β program) cs).length ≤ 2 ^ 32) : TrueToHandles program cs := by
  have hprogram : (Store.empty k β program.toNat).program < 2 ^ 32 := program.toNat_lt
  have hempty : (Store.empty k β program.toNat).Accounts [] [] := .empty _
  have hpack : (Store.empty k β program.toNat).pack = empty k β program := by
    rw [Store.pack_empty, UInt32.ofNat_toNat]
  obtain ⟨hrun, hissued, hremoved⟩ := hempty.pack_applyAll hprogram cs
  rw [hpack] at hrun hissued hremoved
  have haccounts := hempty.applyAll (cs.map .unpack)
  rw [List.nil_append, List.nil_append] at haccounts
  have hlast : (applyAll (Store.empty k β program.toNat) (cs.map .unpack)).program < 2 ^ 32 := by
    rwa [Store.program_applyAll]
  have hsize : (applyAll (Store.empty k β program.toNat) (cs.map .unpack)).slots.size ≤ 2 ^ 32 := by
    rwa [← haccounts.length_issued, ← List.length_map, ← hissued]
  constructor
  case nodup => rwa [hissued, haccounts.nodup_map_pack_iff hlast]
  case knows =>
    rw [hrun, hissued, hremoved]
    exact haccounts.knows_pack hlast hsize
  case find_eq =>
    rintro before v after rfl
    have hbefore := hempty.applyAll (before.map .unpack)
    have hthere : (applyAll (Store.empty k β program.toNat) (before.map .unpack)).program <
        2 ^ 32 := by
      rwa [Store.program_applyAll]
    dsimp only [insert]
    rw [List.map_append, applyAll_append] at hsize
    rw [hrun, List.map_append, applyAll_append, ← hpack,
      (hempty.pack_applyAll hprogram before).1, Store.nextHandle_pack]
    exact hbefore.find_pack_insert hthere v after hsize

end Socp
