import Mathlib.Algebra.Ring.Int.Defs
import Socp.Proofs.Program.Contents
import Socp.Proofs.Store.Aliasing
import Socp.Workspace

/-!
Handles in a workspace. Every program issues its handles under a number of its own, so no handle is
ever issued twice, whatever is done in whichever program, and each one is good until its entity is
deleted, stale from then on, and foreign to all other programs. All of this is about the words that
make up a handle, and it holds as long as the numbers of programs and entities fit into a word, and
no longer.
-/

namespace Socp

open Arena

namespace Workspace

variable {α : Type}

/-! ### Stores of a workspace -/

/-- The store of a program. One that is still to come counts as empty. -/
def storeAt (ws : Workspace α) (i : Nat) (k : Entity) : Store k (k.Content α) :=
  match ws.members[i]? with
  | some m => m.program.store k
  | none => .empty k (k.Content α) (number i).toNat

/-- Every program is coherent and issues handles under its number. -/
def Sound (ws : Workspace α) : Prop :=
  ∀ (i : Nat) (m : Member α), ws.members[i]? = some m →
    m.program.Coherent ∧ ∀ k, (m.program.store k).program = (number i).toNat

theorem storeAt_of_some {ws : Workspace α} {i : Nat} {m : Member α} (hm : ws.members[i]? = some m)
    (k : Entity) : ws.storeAt i k = m.program.store k := by
  rw [storeAt, hm]

theorem storeAt_of_none {ws : Workspace α} {i : Nat} (hm : ws.members[i]? = none) (k : Entity) :
    ws.storeAt i k = .empty k (k.Content α) (number i).toNat := by
  rw [storeAt, hm]

theorem Sound.program_storeAt {ws : Workspace α} (hws : ws.Sound) (i : Nat) (k : Entity) :
    (ws.storeAt i k).program = (number i).toNat := by
  cases hm : ws.members[i]? with
  | none => rw [storeAt_of_none hm, Store.program_empty]
  | some m => rw [storeAt_of_some hm, (hws i m hm).2]

theorem sound_empty : (empty : Workspace α).Sound := by
  intro i m hm
  cases hm

theorem store_empty (id : Nat) (settings : Settings α) (k : Entity) :
    (Program.empty id settings).store k = .empty k (k.Content α) id := by
  cases k <;> rfl

/-- A new program begins with the empty stores that were kept for it. -/
theorem storeAt_addProgram (ws : Workspace α) (settings : Settings α) (i : Nat) (k : Entity) :
    (ws.addProgram settings).2.storeAt i k = ws.storeAt i k := by
  have hmember : (ws.addProgram settings).2.members[i]? =
      if i = ws.members.size then some ⟨.empty (number ws.members.size).toNat settings, [], []⟩
      else ws.members[i]? := Array.getElem?_push
  by_cases hi : i = ws.members.size
  · have hnone : ws.members[i]? = none := Array.getElem?_eq_none (Nat.le_of_eq hi.symm)
    rw [if_pos hi] at hmember
    rw [storeAt_of_some hmember, storeAt_of_none hnone, hi]
    exact store_empty ..
  · rw [if_neg hi] at hmember
    rw [storeAt, hmember, storeAt]

theorem storeAt_printTo (ws : Workspace α) (j : Nat) (target : PrintTarget) (i : Nat) (k : Entity) :
    (ws.printTo j target).storeAt i k = ws.storeAt i k := by
  rw [storeAt, storeAt, printTo, Array.getElem?_modify]
  by_cases hj : j = i
  · rw [if_pos hj]
    cases ws.members[i]? with
    | none => rfl
    | some m => cases k <;> rfl
  · rw [if_neg hj]

theorem store_drain (p : Program α) (k : Entity) : (drain p).2.store k = p.store k := by
  rw [drain]
  split <;> cases k <;> rfl

theorem coherent_drain {p : Program α} (h : p.Coherent) : (drain p).2.Coherent := by
  rw [drain]
  split
  · exact h.output _
  · exact h

/-! ### Histories -/

inductive Step (α : Type)
  | addProgram (settings : Settings α)
  | operate (i : Nat) (op : Operation α)
  | printTo (i : Nat) (target : PrintTarget)
  | takeConsole

/-- The handles of one kind that come out of events, in the order of issue. -/
def issued (events : List (Nat × Event α)) (k : Entity) : List (Handle k) :=
  events.flatMap (·.2.issued k)

def deleted (events : List (Nat × Event α)) (k : Entity) : List (Handle k) :=
  events.flatMap (·.2.deleted k)

def eventsOf (i : Nat) (events : List (Nat × Event α)) : List (Nat × Event α) :=
  events.filter (·.1 = i)

theorem eventsOf_singleton (i : Nat) (e : Nat × Event α) :
    eventsOf i [e] = if e.1 = i then [e] else [] := by
  simp [eventsOf, List.filter_cons]

variable [Zero α] [Add α] [Mul α] [BEq α]

namespace Step

/-- Takes a step. An operation on a program that does not exist does nothing. -/
def apply (ws : Workspace α) : Step α → Workspace α
  | .addProgram settings => (ws.addProgram settings).2
  | .operate i op =>
    match ws.run i op.perform with
    | some (_, after) => after
    | none => ws
  | .printTo i target => ws.printTo i target
  | .takeConsole => ws.takeConsole.2

/-- What a step does to a program, with the number of the program. -/
def event? (ws : Workspace α) : Step α → Option (Nat × Event α)
  | .operate i op => ws.members[i]?.map fun m => (i, op.event m.program)
  | _ => none

theorem apply_operate {ws : Workspace α} {i : Nat} {m : Member α} (hm : ws.members[i]? = some m)
    (op : Operation α) :
    ((operate i op).apply ws).members =
      ws.members.setIfInBounds i { m with program := (drain (op.event m.program).after).2 } := by
  simp only [apply, run, hm, Option.bind_eq_bind, Option.bind_some, Option.pure_def]
  rw [Operation.event, Event.after]
  cases op.perform.run m.program <;> rfl

theorem apply_operate_of_none {ws : Workspace α} {i : Nat} (hm : ws.members[i]? = none)
    (op : Operation α) : (operate i op).apply ws = ws := by
  simp only [apply, run, hm]
  rfl

theorem storeAt_operate {ws : Workspace α} {j : Nat} {m : Member α} (hm : ws.members[j]? = some m)
    (op : Operation α) (i : Nat) (k : Entity) :
    ((operate j op).apply ws).storeAt i k =
      if j = i then (op.event m.program).after.store k else ws.storeAt i k := by
  obtain ⟨hlt, -⟩ := Array.getElem?_eq_some_iff.1 hm
  rw [storeAt, apply_operate hm, Array.getElem?_setIfInBounds]
  by_cases hj : j = i
  · rw [if_pos hj, if_pos hlt, if_pos hj]
    exact store_drain ..
  · rw [if_neg hj, if_neg hj, storeAt]

/-- What a step does to the store of a program is what its event tells, if it is an event of this
program, and nothing otherwise. -/
theorem leads {ws : Workspace α} (hws : ws.Sound) (step : Step α) (i : Nat) (k : Entity) :
    Leads k.mark (ws.storeAt i k) ((step.apply ws).storeAt i k)
      (issued (eventsOf i (step.event? ws).toList) k)
      (deleted (eventsOf i (step.event? ws).toList) k) := by
  cases step with
  | addProgram settings =>
      rw [apply, storeAt_addProgram]
      exact .refl ..
  | printTo j target =>
      rw [apply, storeAt_printTo]
      exact .refl ..
  | takeConsole => exact .refl ..
  | operate j op =>
      cases hm : ws.members[j]? with
      | none =>
          rw [apply_operate_of_none hm, event?, hm]
          exact .refl ..
      | some m =>
          have htold : Leads .. := Operation.told_event (hws j m hm).1 op k
          rw [storeAt_operate hm, event?, hm, Option.map_some, Option.toList_some,
            eventsOf_singleton]
          by_cases hj : j = i
          · rw [if_pos hj, if_pos hj, issued, deleted, List.flatMap_singleton,
              List.flatMap_singleton, ← hj, storeAt_of_some hm]
            exact htold
          · rw [if_neg hj, if_neg hj]
            exact .refl ..

theorem size_le_apply (ws : Workspace α) (step : Step α) :
    ws.members.size ≤ (step.apply ws).members.size := by
  cases step with
  | addProgram settings =>
      show ws.members.size ≤ (ws.members.push _).size
      rw [Array.size_push]
      omega
  | printTo i target =>
      show ws.members.size ≤ (ws.members.modify i _).size
      rw [Array.size_modify]
  | takeConsole => exact Nat.le_refl _
  | operate i op =>
      cases hm : ws.members[i]? with
      | none => rw [apply_operate_of_none hm]
      | some m => rw [apply_operate hm, Array.size_setIfInBounds]

theorem coherent_apply {ws : Workspace α} (hws : ws.Sound) (step : Step α) {i : Nat} {m : Member α}
    (hm : (step.apply ws).members[i]? = some m) : m.program.Coherent := by
  cases step with
  | addProgram settings =>
      have hmember : (ws.members.push
          ⟨.empty (number ws.members.size).toNat settings, [], []⟩)[i]? = some m := hm
      rw [Array.getElem?_push] at hmember
      split at hmember
      · cases hmember
        exact Program.coherent_empty ..
      · exact (hws i m hmember).1
  | printTo j target =>
      rw [apply, Workspace.printTo, Array.getElem?_modify] at hm
      split at hm
      · obtain ⟨m', hm', rfl⟩ := Option.map_eq_some_iff.1 hm
        exact (hws i m' hm').1.output target
      · exact (hws i m hm).1
  | takeConsole => exact (hws i m hm).1
  | operate j op =>
      cases hj : ws.members[j]? with
      | none =>
          rw [apply_operate_of_none hj] at hm
          exact (hws i m hm).1
      | some m' =>
          rw [apply_operate hj, Array.getElem?_setIfInBounds] at hm
          split at hm
          · split at hm
            · cases hm
              have hafter : (op.event m'.program).after.Coherent :=
                Operation.coherent_performAll (hws j m' hj).1 [op]
              exact coherent_drain hafter
            · cases hm
          · exact (hws i m hm).1

theorem sound_apply {ws : Workspace α} (hws : ws.Sound) (step : Step α) :
    (step.apply ws).Sound := by
  intro i m hm
  refine ⟨coherent_apply hws step hm, ?_⟩
  intro k
  rw [← storeAt_of_some hm, (leads hws step i k).program_eq, hws.program_storeAt]

end Step

/-! ### Many steps -/

def runAll (ws : Workspace α) (steps : List (Step α)) : Workspace α := steps.foldl Step.apply ws

/-- What steps do to programs, in their order. -/
def history (ws : Workspace α) : List (Step α) → List (Nat × Event α)
  | [] => []
  | step :: steps => (step.event? ws).toList ++ (step.apply ws).history steps

theorem runAll_append (ws : Workspace α) (steps more : List (Step α)) :
    ws.runAll (steps ++ more) = (ws.runAll steps).runAll more :=
  List.foldl_append

theorem history_append (ws : Workspace α) (steps more : List (Step α)) :
    ws.history (steps ++ more) = ws.history steps ++ (ws.runAll steps).history more := by
  induction steps generalizing ws with
  | nil => rfl
  | cons step steps ih =>
      rw [List.cons_append, history, ih, history, List.append_assoc]
      rfl

theorem size_le_runAll (ws : Workspace α) (steps : List (Step α)) :
    ws.members.size ≤ (ws.runAll steps).members.size := by
  induction steps generalizing ws with
  | nil => exact Nat.le_refl _
  | cons step steps ih => exact Nat.le_trans (Step.size_le_apply ws step) (ih _)

namespace Sound

variable {ws : Workspace α}

theorem runAll (hws : ws.Sound) (steps : List (Step α)) : (ws.runAll steps).Sound := by
  induction steps generalizing ws with
  | nil => exact hws
  | cons step steps ih => exact ih (Step.sound_apply hws step)

theorem leads (hws : ws.Sound) (steps : List (Step α)) (i : Nat) (k : Entity) :
    Leads k.mark (ws.storeAt i k) ((ws.runAll steps).storeAt i k)
      (issued (eventsOf i (ws.history steps)) k) (deleted (eventsOf i (ws.history steps)) k) := by
  induction steps generalizing ws with
  | nil => exact .refl ..
  | cons step steps ih =>
      have hrest := ih (Step.sound_apply hws step)
      rw [history, eventsOf, List.filter_append, issued, deleted, List.flatMap_append,
        List.flatMap_append]
      exact (Step.leads hws step i k).trans hrest

theorem exists_of_mem_history (hws : ws.Sound) {steps : List (Step α)} {e : Nat × Event α}
    (he : e ∈ ws.history steps) :
    ∃ p op, e.2 = Operation.event p op ∧ p.Coherent ∧
      (∀ k, (p.store k).program = (number e.1).toNat) ∧
        e.1 < (ws.runAll steps).members.size := by
  induction steps generalizing ws with
  | nil => cases he
  | cons step steps ih =>
      rcases List.mem_append.1 he with hnow | hlater
      · cases step with
        | addProgram | printTo | takeConsole => cases hnow
        | operate j op =>
            rw [Option.mem_toList, Step.event?] at hnow
            obtain ⟨m, hm, rfl⟩ := Option.map_eq_some_iff.1 hnow
            obtain ⟨hlt, -⟩ := Array.getElem?_eq_some_iff.1 hm
            obtain ⟨hcoherent, hprogram⟩ := hws j m hm
            exact ⟨m.program, op, rfl, hcoherent, hprogram,
              Nat.lt_of_lt_of_le hlt (size_le_runAll ws (.operate j op :: steps))⟩
      · exact ih (Step.sound_apply hws step) hlater

theorem issuer_eq (hws : ws.Sound) {steps : List (Step α)} {e : Nat × Event α}
    (he : e ∈ ws.history steps) {k : Entity} {h : Handle k} (hh : h ∈ e.2.issued k) :
    h.pack.program = number e.1 ∧ e.1 < (ws.runAll steps).members.size := by
  obtain ⟨p, op, heq, hcoherent, hprogram, hlt⟩ := hws.exists_of_mem_history he
  have htold : Leads .. := Operation.told_event hcoherent op k
  rw [heq] at hh
  refine ⟨?_, hlt⟩
  rw [Handle.pack, (htold.program_of_issued hh).trans (hprogram k), UInt32.ofNat_toNat]

end Sound

/-! ### The fate of every handle -/

theorem accounts_runAll (steps : List (Step α)) (i : Nat) (k : Entity) :
    ((empty.runAll steps).storeAt i k).Accounts (issued (eventsOf i (empty.history steps)) k)
      (deleted (eventsOf i (empty.history steps)) k) := by
  have hstart : ((empty : Workspace α).storeAt i k).Accounts [] [] := Store.Accounts.empty _
  exact (sound_empty.leads steps i k).accounts hstart

/-- There are no more programs, and no more entities of one kind in any of them, than a word can
number. Deleted ones count. -/
structure Fits (ws : Workspace α) : Prop where
  members_le : ws.members.size ≤ 2 ^ 32
  slots_le : ∀ (i : Nat) m, ws.members[i]? = some m →
    ∀ k, (m.program.store k).slots.size ≤ 2 ^ 32

/-- What a history tells about the handles of one kind. -/
structure HandlesTold (steps : List (Step α)) (k : Entity) : Prop where
  /-- Each program issues handles under its number. -/
  issuer_eq : ∀ e ∈ empty.history steps, ∀ h ∈ e.2.issued k,
    h.pack.program = number e.1 ∧ e.1 < (empty.runAll steps).members.size
  /-- No handle is issued twice, in one program or in two. -/
  issued_nodup : ((issued (empty.history steps) k).map Handle.pack).Nodup
  /-- What is answered to words is what is answered to the handle that they stand for. -/
  find_eq : ∀ (i : Nat) m, (empty.runAll steps).members[i]? = some m →
    ∀ w, (m.program.store k).pack.find w = (m.program.store k).find w.unpack
  /-- Each program lists and accepts the handles that it has issued and not deleted, and refuses
  those that it has deleted. -/
  knows : ∀ (i : Nat) m, (empty.runAll steps).members[i]? = some m →
    (m.program.store k).pack.Knows
      ((issued (eventsOf i (empty.history steps)) k).map Handle.pack)
      ((deleted (eventsOf i (empty.history steps)) k).map Handle.pack)
  /-- It refuses those of other programs as well. -/
  foreign : ∀ (i : Nat) m, (empty.runAll steps).members[i]? = some m →
    ∀ e ∈ empty.history steps, e.1 ≠ i → ∀ h ∈ e.2.issued k,
      (m.program.store k).pack.Refuses h.pack (.foreignHandle k)
  /-- What is stale stays stale. -/
  stale : ∀ more (i : Nat) m, (empty.runAll (steps ++ more)).members[i]? = some m →
    ∀ h ∈ deleted (eventsOf i (empty.history steps)) k,
      (m.program.store k).pack.Refuses h.pack (.staleHandle k)
  /-- All that has ever happened to its entities is a list of changes. -/
  leads : ∀ (i : Nat) m, (empty.runAll steps).members[i]? = some m →
    Leads k.mark (PackedStore.empty k (k.Content α) (number i)) (m.program.store k).pack
      ((issued (eventsOf i (empty.history steps)) k).map Handle.pack)
      ((deleted (eventsOf i (empty.history steps)) k).map Handle.pack)
  /-- What is found under a handle later is the entity that was found before. -/
  mark_eq : ∀ more (i : Nat) m m', (empty.runAll steps).members[i]? = some m →
    (empty.runAll (steps ++ more)).members[i]? = some m' →
      ∀ w x y, (m.program.store k).pack.find w = .ok x → (m'.program.store k).pack.find w = .ok y →
        k.mark y = k.mark x

section

variable {steps : List (Step α)} {i : Nat} {m : Member α}

theorem program_lt_of_getElem? (hm : (empty.runAll steps).members[i]? = some m) (k : Entity) :
    (m.program.store k).program < 2 ^ 32 := by
  rw [(sound_empty.runAll steps i m hm).2 k]
  exact (number i).toNat_lt

theorem accounts_of_getElem? (hm : (empty.runAll steps).members[i]? = some m) (k : Entity) :
    (m.program.store k).Accounts (issued (eventsOf i (empty.history steps)) k)
      (deleted (eventsOf i (empty.history steps)) k) := by
  rw [← storeAt_of_some hm]
  exact accounts_runAll steps i k

theorem find_pack_of_getElem? (hm : (empty.runAll steps).members[i]? = some m) (k : Entity)
    (w : PackedHandle k) : (m.program.store k).pack.find w = (m.program.store k).find w.unpack :=
  ((accounts_of_getElem? hm k).fits (program_lt_of_getElem? hm k)).find_pack w

theorem exists_member_of_mem_history {e : Nat × Event α} (he : e ∈ empty.history steps) :
    ∃ m, (empty.runAll steps).members[e.1]? = some m := by
  obtain ⟨-, -, -, -, -, hlt⟩ := sound_empty.exists_of_mem_history he
  exact ⟨_, Array.getElem?_eq_getElem hlt⟩

theorem number_eq_iff {i : Nat} (hi : i < 2 ^ 32) {word : UInt32} :
    number i = word ↔ i = word.toNat := by
  rw [← UInt32.toNat_inj, number, UInt32.toNat_ofNat_of_lt' hi]

namespace Fits

theorem lt_of_mem_history (hfits : (empty.runAll steps).Fits) {e : Nat × Event α}
    (he : e ∈ empty.history steps) : e.1 < 2 ^ 32 := by
  obtain ⟨-, -, -, -, -, hlt⟩ := sound_empty.exists_of_mem_history he
  exact hlt.trans_le hfits.members_le

/-- The program in a handle tells who has issued it. -/
theorem filter_map_pack_issued (hfits : (empty.runAll steps).Fits) {k : Entity} (word : UInt32) :
    ((issued (empty.history steps) k).map Handle.pack).filter (·.program = word) =
      (issued (eventsOf word.toNat (empty.history steps)) k).map Handle.pack := by
  rw [issued, issued, List.map_flatMap, List.map_flatMap]
  apply filter_flatMap_of_forall
  intro e he w hw
  obtain ⟨h, hh, rfl⟩ := List.mem_map.1 hw
  rw [(sound_empty.issuer_eq he hh).1, decide_eq_decide,
    number_eq_iff (hfits.lt_of_mem_history he)]

theorem nodup_issued (hfits : (empty.runAll steps).Fits) (k : Entity) :
    ((issued (empty.history steps) k).map Handle.pack).Nodup := by
  -- equal handles have equal numbers, and those under one number are those of one program
  apply nodup_of_nodup_filter (·.program)
  intro word
  rw [hfits.filter_map_pack_issued]
  cases hm : (empty.runAll steps).members[word.toNat]? with
  | some m =>
      rw [(accounts_of_getElem? hm k).nodup_map_pack_iff (program_lt_of_getElem? hm k)]
      exact hfits.slots_le _ m hm k
  | none =>
      have haccounts := accounts_runAll steps word.toNat k
      rw [storeAt_of_none hm] at haccounts
      rw [haccounts.nodup_map_pack_iff (number _).toNat_lt]
      exact Nat.zero_le _

theorem handlesTold (hfits : (empty.runAll steps).Fits) (k : Entity) : HandlesTold steps k := by
  constructor
  case issuer_eq => exact fun e he h hh => sound_empty.issuer_eq he hh
  case issued_nodup => exact hfits.nodup_issued k
  case find_eq => exact fun i m hm w => find_pack_of_getElem? hm k w
  case knows =>
    intro i m hm
    exact (accounts_of_getElem? hm k).knows_pack (program_lt_of_getElem? hm k)
      (hfits.slots_le i m hm k)
  case foreign =>
    intro i m hm e he hne h hh
    obtain ⟨hilt, -⟩ := Array.getElem?_eq_some_iff.1 hm
    apply PackedStore.refuses_of_program_ne
    rw [(sound_empty.issuer_eq he hh).1, Store.pack, (sound_empty.runAll steps i m hm).2 k,
      UInt32.ofNat_toNat, ne_eq, number_eq_iff (hfits.lt_of_mem_history he), number,
      UInt32.toNat_ofNat_of_lt' (hilt.trans_le hfits.members_le)]
    exact hne
  case stale =>
    intro more i m hm h hh
    obtain ⟨e, he, -⟩ := List.mem_flatMap.1 hh
    obtain ⟨hmem, rfl⟩ : e ∈ empty.history steps ∧ e.1 = i := by simpa [eventsOf] using he
    obtain ⟨m', hm'⟩ := exists_member_of_mem_history hmem
    have hbefore := accounts_of_getElem? hm' k
    have hwords : h.pack.unpack = h := hbefore.unpack_pack (program_lt_of_getElem? hm' k)
      (hfits.slots_le _ m' hm' k) (hbefore.removed_issued h hh)
    refine (accounts_of_getElem? hm k).stale_pack (program_lt_of_getElem? hm k) ?_ hwords
    rw [history_append, eventsOf, List.filter_append, deleted, List.flatMap_append]
    exact List.mem_append_left _ hh
  case leads =>
    intro i m hm
    have hleads := sound_empty.leads steps i k
    have hstart : ((empty : Workspace α).storeAt i k).Accounts [] [] := Store.Accounts.empty _
    rw [storeAt_of_some hm] at hleads
    have hpacked := hstart.leads_pack_of_leads (number i).toNat_lt hleads (hfits.slots_le i m hm k)
    rwa [storeAt_of_none rfl, Store.pack_empty, UInt32.ofNat_toNat] at hpacked
  case mark_eq =>
    intro more i m m' hm hm' w x y hx hy
    rw [find_pack_of_getElem? hm] at hx
    rw [find_pack_of_getElem? hm'] at hy
    have hleads := (sound_empty.runAll steps).leads more i k
    rw [← runAll_append, storeAt_of_some hm, storeAt_of_some hm'] at hleads
    exact hleads.view_eq hx hy

end Fits

/-- As long as the numbers fit into words, handles never alias. A store is true to its handles
whatever is done to it, and the stores of the programs in a workspace are such stores, with numbers
that keep them apart. A cone comes with variables that name it. -/
theorem handles_never_alias (hfits : (empty.runAll steps).Fits) :
    (∀ {k : Entity} {β : Type} (program : UInt32) (cs : List (Change (PackedHandle k) β)),
      (issuedBy (PackedStore.empty k β program) cs).length ≤ 2 ^ 32 →
        PackedStore.TrueToHandles program cs) ∧
    (∀ k, HandlesTold steps k) ∧
    ∀ e ∈ empty.history steps, ∀ id ∈ e.2.issued .cone,
      ∃ cone, e.2.after.findCone id = .ok cone ∧ e.2.issued .var = cone.vars ∧
        ∀ v ∈ cone.vars, ∃ x, e.2.after.findVariable v = .ok x ∧ x.cone = id := by
  refine ⟨PackedStore.trueToHandles, hfits.handlesTold, ?_⟩
  intro e he id hid
  obtain ⟨p, op, heq, hcoherent, -⟩ := sound_empty.exists_of_mem_history he
  rw [heq] at hid ⊢
  exact Operation.found_of_issued hcoherent op hid

end

/-- Two programs, and in the first a cone that is deleted before another one is created. -/
theorem handles_never_alias_in_two_programs :
    let settings : Settings Int := ⟨false, 0, true⟩
    let steps : List (Step Int) := [.addProgram settings, .addProgram settings,
      .operate 0 .createOrthant, .operate 1 (.createSecondOrder 2),
      .operate 0 (.deleteCone ⟨0, 0, 0⟩), .operate 0 .createOrthant]
    let cs : List (Change (PackedHandle .var) Int) :=
      [.insert 5, .remove ⟨7, 0, 0⟩, .insert 6, .update ⟨7, 1, 0⟩ (· + 1)]
    (empty.runAll steps).Fits ∧ (∀ k, HandlesTold steps k) ∧
      (issued (empty.history steps) .var).map Handle.pack =
        [⟨0, 0, 0⟩, ⟨1, 0, 0⟩, ⟨1, 1, 0⟩, ⟨0, 1, 0⟩] ∧
      deleted (empty.history steps) .var = [⟨0, 0, 0⟩] ∧
      (issuedBy (PackedStore.empty .var Int 7) cs).length ≤ 2 ^ 32 ∧
        PackedStore.TrueToHandles 7 cs := by
  intro settings steps cs
  have hslots : ∀ m ∈ (empty.runAll steps).members.toList,
      ∀ k ∈ [Entity.var, .cone, .constraint], (m.program.store k).slots.size ≤ 2 ^ 32 := by
    decide +kernel
  have hfits : (empty.runAll steps).Fits := by
    refine ⟨by decide +kernel, fun i m hm k => ?_⟩
    exact hslots m (Array.mem_toList_iff.2 (Array.mem_of_getElem? hm)) k (by cases k <;> decide)
  have hcs : (issuedBy (PackedStore.empty .var Int 7) cs).length ≤ 2 ^ 32 := by decide +kernel
  obtain ⟨htrue, htold, -⟩ := handles_never_alias hfits
  exact ⟨hfits, htold, by decide +kernel, by decide +kernel, hcs, htrue 7 cs hcs⟩

/-! ### Beyond the words -/

theorem issued_createSecondOrder {p : Program α} (hidle : p.session = none) {n : Nat}
    (hn : 1 ≤ n) : ((Operation.createSecondOrder n).event p).issued .var =
      (p.vars.insertCopies (.blank p.cones.nextHandle) n).1 := by
  obtain ⟨cone, -, rfl, hvars, hrun⟩ :=
    @ProgramM.run_createCone _ _ _ hidle .secondOrder n hn nofun
  have hresult : ((Operation.createSecondOrder cone.dim).event p).result =
      .ok (.cone p.cones.nextHandle) (p.withCone cone) := by
    rw [Operation.event, Operation.perform, ProgramM.run_map, ProgramM.createSecondOrder, hrun]
    rfl
  rw [Event.issued, hresult]
  show (p.withCone cone).coneVariables p.cones.nextHandle = _
  rw [Program.coneVariables, Program.findCone, Program.find_cones_withCone, if_pos rfl]
  exact hvars

theorem issued_in_one_program (settings : Settings α) {n : Nat} (hn : 1 ≤ n) :
    issued (empty.history [.addProgram settings, .operate 0 (.createSecondOrder n)]) .var =
      ((Store.empty .var (Variable α) (number 0).toNat).insertCopies
        (.blank ⟨(number 0).toNat, 0, 0⟩) n).1 := by
  have hissued := issued_createSecondOrder (p := .empty (number 0).toNat settings) rfl hn
  rw [← List.append_nil (Event.issued _ _)] at hissued
  exact hissued

theorem members_addPrograms (settings : Settings α) (n : Nat) :
    (empty.runAll (List.replicate n (.addProgram settings))).members.toList =
      (List.range n).map fun i => ⟨.empty (number i).toNat settings, [], []⟩ := by
  induction n with
  | zero => rfl
  | succ n ih =>
      have hsize := congrArg List.length ih
      rw [Array.length_toList, List.length_map, List.length_range] at hsize
      rw [List.replicate_succ', runAll_append, List.range_succ, List.map_append, ← ih]
      show ((empty.runAll (List.replicate n (.addProgram settings))).addProgram
        settings).2.members.toList = _
      rw [addProgram, Array.toList_push, hsize]
      rfl

theorem history_addPrograms (ws : Workspace α) (settings : Settings α) (n : Nat) :
    ws.history (List.replicate n (.addProgram settings)) = [] := by
  induction n generalizing ws with
  | zero => rfl
  | succ n ih => exact ih _

theorem issued_in_two_programs (settings : Settings α) {n j : Nat} (hpos : 0 < j) (hj : j < n) :
    issued (empty.history (List.replicate n (.addProgram settings) ++
      [.operate 0 (.createSecondOrder 1), .operate j (.createSecondOrder 1)])) .var =
      [⟨(number 0).toNat, 0, 0⟩, ⟨(number j).toNat, 0, 0⟩] := by
  have hmember : ∀ i < n, (empty.runAll (List.replicate n (.addProgram settings))).members[i]? =
      some ⟨.empty (number i).toNat settings, [], []⟩ := by
    intro i hi
    rw [← Array.getElem?_toList, members_addPrograms, List.getElem?_map, List.getElem?_range hi,
      Option.map_some]
  have hfirst := hmember 0 (hpos.trans hj)
  have hsecond : (Step.apply (empty.runAll (List.replicate n (.addProgram settings)))
      (.operate 0 (.createSecondOrder 1))).members[j]? =
        some ⟨.empty (number j).toNat settings, [], []⟩ := by
    rw [Step.apply_operate hfirst, Array.getElem?_setIfInBounds, if_neg (Nat.ne_of_lt hpos),
      hmember j hj]
  rw [history_append, history_addPrograms, List.nil_append, history, history, Step.event?,
    Step.event?, hfirst, hsecond]
  simp only [issued, history, Option.map_some, Option.toList_some, List.flatMap_append,
    List.flatMap_singleton, List.flatMap_nil]
  rw [issued_createSecondOrder rfl (Nat.le_refl 1), issued_createSecondOrder rfl (Nat.le_refl 1)]
  rfl

/-- Beyond the words handles do alias: those of the entities after the 2^32-th one in a program, and
those of the program after the 2^32-th one. And while a program is lent, the handle of another one
is not looked at. -/
theorem handles_alias_beyond_words :
    let settings : Settings Int := ⟨false, 0, true⟩
    let crowd : List (Step Int) :=
      [.addProgram settings, .operate 0 (.createSecondOrder (2 ^ 32 + 1))]
    let row : List (Step Int) := List.replicate (2 ^ 32 + 1) (.addProgram settings) ++
      [.operate 0 (.createSecondOrder 1), .operate (2 ^ 32) (.createSecondOrder 1)]
    let two : List (Step Int) := [.addProgram settings, .addProgram settings,
      .operate 1 .createOrthant, .operate 0 .checkOut]
    ¬((issued (empty.history crowd) .var).map Handle.pack).Nodup ∧
      ¬((issued (empty.history row) .var).map Handle.pack).Nodup ∧
      (⟨1, 0, 0⟩ ∈ issued (empty.history two) .var ∧
        ((empty.runAll two).run 0 (Operation.setPrimalValue ⟨1, 0, 0⟩ 1).perform).map (·.1) =
          some (.error (.refused .checkedOut))) := by
  intro settings crowd row two
  refine ⟨?_, ?_, ?_, ?_⟩
  · rw [issued_in_one_program settings (by decide),
      Store.nodup_map_pack_insertCopies_iff (by decide)]
    decide
  · rw [issued_in_two_programs settings (by decide) (Nat.lt_succ_self _)]
    decide
  · decide +kernel
  · decide +kernel

end Workspace

end Socp
