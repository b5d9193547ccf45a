import Socp.Proofs.Program.Reachable

/-!
The history of a program: what was done to it, which handles came out of that and which were used
up. The live handles are those that were issued and not deleted since, so a handle that was once
issued is accepted until its entity is deleted and stale from then on.
-/

namespace Socp

variable {α : Type}

/-! ### Handles of every kind -/

namespace Program

/-- The number under which a program issues its handles. -/
def number (p : Program α) : Nat := p.vars.program

def handles (p : Program α) : (k : Entity) → List (Handle k)
  | .var => p.vars.handles
  | .cone => p.cones.handles
  | .constraint => p.constraints.handles

/-- How many handles of one kind there have been. -/
def slotCount (p : Program α) : Entity → Nat
  | .var => p.vars.slots.size
  | .cone => p.cones.slots.size
  | .constraint => p.constraints.slots.size

def complaint? (p : Program α) : {k : Entity} → Handle k → Option ProgramError
  | .var, v => p.vars.complaint? v
  | .cone, id => p.cones.complaint? id
  | .constraint, con => p.constraints.complaint? con

def coneVariables (p : Program α) (id : ConeId) : List VariableId :=
  match p.findCone id with
  | .ok cone => cone.vars
  | .error _ => []

variable {p : Program α} {k : Entity} {h : Handle k}

theorem complaint?_eq_none_iff : p.complaint? h = none ↔ h ∈ p.handles k := by
  cases k <;> exact Store.complaint?_eq_none_iff_mem

theorem Coherent.complaint?_cases (hp : p.Coherent) (h : Handle k) :
    p.complaint? h = some (.foreignHandle k) ∧ h.program ≠ p.number ∨
      p.complaint? h = some (.staleHandle k) ∧ h.program = p.number ∨
        p.complaint? h = none ∧ h.program = p.number := by
  cases k with
  | var => exact p.vars.complaint?_cases h
  | cone =>
      rw [number, ← hp.cones_program]
      exact p.cones.complaint?_cases h
  | constraint =>
      rw [number, ← hp.constraints_program]
      exact p.constraints.complaint?_cases h

theorem Coherent.eq_of_complaint? (hp : p.Coherent) {cause : ProgramError}
    (hc : p.complaint? h = some cause) : cause = .foreignHandle k ∨ cause = .staleHandle k := by
  rcases hp.complaint?_cases h with ⟨heq, -⟩ | ⟨heq, -⟩ | ⟨heq, -⟩
  · exact .inl (Option.some.inj (hc.symm.trans heq))
  · exact .inr (Option.some.inj (hc.symm.trans heq))
  · rw [heq] at hc
    cases hc

theorem Coherent.complaint?_of_ne (hp : p.Coherent) (hne : h.program ≠ p.number) :
    p.complaint? h = some (.foreignHandle k) := by
  rcases hp.complaint?_cases h with ⟨hforeign, -⟩ | ⟨-, heq⟩ | ⟨-, heq⟩
  · exact hforeign
  · exact absurd heq hne
  · exact absurd heq hne

/-- What the program has issued is stale if it is not live. -/
theorem Coherent.complaint?_of_not_mem (hp : p.Coherent) (heq : h.program = p.number)
    (hdead : h ∉ p.handles k) : p.complaint? h = some (.staleHandle k) := by
  rcases hp.complaint?_cases h with ⟨-, hne⟩ | ⟨hstale, -⟩ | ⟨hgood, -⟩
  · exact absurd heq hne
  · exact hstale
  · exact absurd (complaint?_eq_none_iff.1 hgood) hdead

end Program

/-! ### Events -/

/-- An operation on a program and how it ended. -/
structure Event (α : Type) where
  before : Program α
  operation : Operation α
  result : EStateM.Result Fault (Program α) Answer

namespace Event

def after (e : Event α) : Program α :=
  match e.result with
  | .ok _ q => q
  | .error _ q => q

/-- The handles that come out of an event. With a cone come its variables. -/
def issued (e : Event α) : (k : Entity) → List (Handle k)
  | .var =>
    match e.result with
    | .ok (.cone id) q => q.coneVariables id
    | _ => []
  | .cone =>
    match e.result with
    | .ok (.cone id) _ => [id]
    | _ => []
  | .constraint =>
    match e.result with
    | .ok (.constraint con) _ => [con]
    | _ => []

/-- The handles whose entities an event deletes. With a cone go its variables. -/
def deleted (e : Event α) : (k : Entity) → List (Handle k)
  | .var =>
    match e.operation, e.result with
    | .deleteCone id, .ok _ _ => e.before.coneVariables id
    | _, _ => []
  | .cone =>
    match e.operation, e.result with
    | .deleteCone id, .ok _ _ => [id]
    | _, _ => []
  | .constraint =>
    match e.operation, e.result with
    | .deleteConstraint con, .ok _ _ => [con]
    | _, _ => []

/-- How the handles of one kind after an event come from those before. -/
structure Ledger (e : Event α) (k : Entity) : Prop where
  number_eq : e.after.number = e.before.number
  /-- New handles go on where the old ones ended. -/
  issued_eq : e.issued k = (List.range' (e.before.slotCount k) (e.issued k).length).map
    fun slot => ⟨e.before.number, slot, 0⟩
  slotCount_eq : e.after.slotCount k = e.before.slotCount k + (e.issued k).length
  live_of_deleted : ∀ h ∈ e.deleted k, h ∈ e.before.handles k
  handles_eq : e.after.handles k = (e.before.handles k).filter (· ∉ e.deleted k) ++ e.issued k

namespace Ledger

variable {e : Event α} {k : Entity}

theorem inserted (new : List (Handle k)) (hissued : e.issued k = new)
    (hdeleted : e.deleted k = [])
    (hnumber : e.after.number = e.before.number)
    (hnew : new = (List.range' (e.before.slotCount k) new.length).map
      fun slot => ⟨e.before.number, slot, 0⟩)
    (hcount : e.after.slotCount k = e.before.slotCount k + new.length)
    (hhandles : e.after.handles k = e.before.handles k ++ new) : e.Ledger k where
  number_eq := hnumber
  issued_eq := by rwa [hissued]
  slotCount_eq := by rwa [hissued]
  live_of_deleted := by simp [hdeleted]
  handles_eq := by simp [hissued, hdeleted, hhandles]

theorem removed (gone : List (Handle k)) (hissued : e.issued k = [])
    (hdeleted : e.deleted k = gone)
    (hnumber : e.after.number = e.before.number)
    (hcount : e.after.slotCount k = e.before.slotCount k)
    (hgone : ∀ h ∈ gone, h ∈ e.before.handles k)
    (hhandles : e.after.handles k = (e.before.handles k).filter (· ∉ gone)) : e.Ledger k where
  number_eq := hnumber
  issued_eq := by simp [hissued]
  slotCount_eq := by simp [hissued, hcount]
  live_of_deleted := by rwa [hdeleted]
  handles_eq := by rw [hissued, hdeleted, hhandles, List.append_nil]

theorem quiet (hissued : e.issued k = []) (hdeleted : e.deleted k = [])
    (hnumber : e.after.number = e.before.number)
    (hcount : e.after.slotCount k = e.before.slotCount k)
    (hhandles : e.after.handles k = e.before.handles k) : e.Ledger k :=
  .inserted [] hissued hdeleted hnumber rfl hcount (by rw [hhandles, List.append_nil])

theorem adjusted (l : List (VariableId × (Variable α → Variable α)))
    (m : List (ConstraintId × (Constraint α → Constraint α))) (hissued : e.issued k = [])
    (hdeleted : e.deleted k = []) (hvars : e.after.vars = e.before.vars.adjustAll l)
    (hcones : e.after.cones = e.before.cones)
    (hcons : e.after.constraints = e.before.constraints.adjustAll m) : e.Ledger k := by
  refine .quiet hissued hdeleted ?_ ?_ ?_
  · simp [Program.number, hvars]
  · cases k <;> simp [Program.slotCount, hvars, hcones, hcons]
  · cases k <;> simp [Program.handles, hvars, hcones, hcons]

theorem slot_of_mem_issued (hl : e.Ledger k) {h : Handle k} (hh : h ∈ e.issued k) :
    h.program = e.before.number ∧ e.before.slotCount k ≤ h.slot ∧
      h.slot < e.after.slotCount k := by
  have hmem := hh
  rw [hl.issued_eq] at hmem
  obtain ⟨slot, hslot, rfl⟩ := List.mem_map.1 hmem
  rw [List.mem_range'_1] at hslot
  rw [hl.slotCount_eq]
  exact ⟨rfl, hslot⟩

theorem slotCount_le (hl : e.Ledger k) : e.before.slotCount k ≤ e.after.slotCount k :=
  hl.slotCount_eq ▸ Nat.le_add_right _ _

theorem mem_handles_iff (hl : e.Ledger k) {h : Handle k} :
    h ∈ e.after.handles k ↔ h ∈ e.before.handles k ∧ h ∉ e.deleted k ∨ h ∈ e.issued k := by
  rw [hl.handles_eq, List.mem_append, List.mem_filter, decide_eq_true_iff]

end Ledger

end Event

namespace Operation

variable {p : Program α} {op : Operation α}

theorem deleted_of_newCone? {x : ConeKind × Nat} (hop : op.newCone? = some x)
    (r : EStateM.Result Fault (Program α) Answer) (k : Entity) :
    (Event.mk p op r).deleted k = [] := by
  cases op <;> cases hop <;> cases k <;> rfl

theorem deleted_of_variableEdit? {x : VariableId × (Variable α → Variable α)}
    (hop : op.variableEdit? = some x) (r : EStateM.Result Fault (Program α) Answer)
    (k : Entity) : (Event.mk p op r).deleted k = [] := by
  cases op <;> cases hop <;> cases k <;> rfl

theorem deleted_error (fault : Fault) (q : Program α) (k : Entity) :
    (Event.mk p op (.error fault q)).deleted k = [] := by
  cases op <;> cases k <;> rfl

theorem ledger_coneDeleted (h : p.Coherent) {id : ConeId} {cone : Cone}
    (hcone : p.cones.find id = .ok cone) (k : Entity) :
    (Event.mk p (.deleteCone id) (.ok .done (p.withoutCone id cone))).Ledger k := by
  have hnumber : (p.withoutCone id cone).number = p.number := Store.program_clear ..
  cases k with
  | constraint =>
      exact .quiet rfl rfl hnumber (Store.size_slots_mapValues ..) (Store.handles_mapValues ..)
  | cone =>
      refine .removed [id] rfl rfl hnumber (Store.size_slots_assign ..) ?_ ?_
      · intro g hg
        rw [List.mem_singleton.1 hg]
        exact Store.mem_handles_iff.2 ⟨cone, hcone⟩
      · show (p.cones.assign id.slot none).handles = p.cones.handles.filter (· ∉ [id])
        simpa using Store.handles_assign_none hcone
  | var =>
      have hdeleted : p.coneVariables id = cone.vars := by
        rw [Program.coneVariables, Program.findCone, hcone]
      exact .removed cone.vars rfl hdeleted hnumber (Store.size_slots_clear ..)
        (fun v hv => h.live_of_mem_vars hcone hv) (h.handles_vars_withoutCone hcone)

theorem ledger_constraintDeleted {con : ConstraintId} {c : Constraint α}
    (hcon : p.constraints.find con = .ok c) (k : Entity) :
    (Event.mk p (.deleteConstraint con)
      (.ok .done { p with constraints := p.constraints.assign con.slot none })).Ledger k := by
  cases k with
  | var | cone => exact .quiet rfl rfl rfl rfl rfl
  | constraint =>
      refine .removed [con] rfl rfl rfl (Store.size_slots_assign ..) ?_ ?_
      · intro g hg
        rw [List.mem_singleton.1 hg]
        exact Store.mem_handles_iff.2 ⟨c, hcon⟩
      · show (p.constraints.assign con.slot none).handles =
          p.constraints.handles.filter (· ∉ [con])
        simpa using Store.handles_assign_none hcon

section

variable [Zero α]

theorem ledger_coneCreated (h : p.Coherent) {x : ConeKind × Nat} {cone : Cone}
    (hop : op.newCone? = some x)
    (hvars : cone.vars =
      (p.vars.insertCopies (Variable.blank p.cones.nextHandle : Variable α) cone.dim).1)
    (k : Entity) :
    (Event.mk p op (.ok (.cone p.cones.nextHandle) (p.withCone cone))).Ledger k := by
  have hdeleted := deleted_of_newCone? (p := p) hop
    (.ok (.cone p.cones.nextHandle) (p.withCone cone)) k
  have hnumber : (p.withCone cone).number = p.number := Store.program_insertCopies ..
  cases k with
  | constraint => exact .quiet rfl hdeleted hnumber rfl rfl
  | cone =>
      refine .inserted [_] rfl hdeleted hnumber ?_ (Array.size_push _) (Store.handles_insert ..)
      show [p.cones.nextHandle] = [⟨p.number, p.cones.slots.size, 0⟩]
      rw [Store.nextHandle, h.cones_program]
      rfl
  | var =>
      have hissued : (p.withCone cone).coneVariables p.cones.nextHandle = cone.vars := by
        rw [Program.coneVariables, Program.findCone, Program.find_cones_withCone, if_pos rfl]
      refine .inserted cone.vars hissued hdeleted hnumber ?_ (Store.size_slots_insertCopies ..) ?_
      · exact hvars.trans (Store.insertCopies_handles ..)
      · rw [hvars]
        exact Store.handles_insertCopies ..

theorem ledger_constraintCreated (h : p.Coherent) (k : Entity) :
    (Event.mk p .createConstraint (.ok (.constraint p.constraints.nextHandle)
      { p with constraints := (p.constraints.insert .blank).2 })).Ledger k := by
  cases k with
  | var | cone => exact .quiet rfl rfl rfl rfl rfl
  | constraint =>
      refine .inserted [_] rfl rfl rfl ?_ (Array.size_push _) (Store.handles_insert ..)
      show [p.constraints.nextHandle] = [⟨p.number, p.constraints.slots.size, 0⟩]
      rw [Store.nextHandle, h.constraints_program]
      rfl

end

variable [Zero α] [Add α] [Mul α] [BEq α]

/-- However an operation ends, the books balance. -/
theorem Effect.ledger (h : p.Coherent) {r : EStateM.Result Fault (Program α) Answer}
    (he : Effect p op r) (k : Entity) : (Event.mk p op r).Ledger k := by
  cases he with
  | coneCreated hop hidle hkind hdim hvars => exact ledger_coneCreated h hop hvars k
  | constraintCreated hidle => exact ledger_constraintCreated h k
  | coneDeleted hidle hcone => exact ledger_coneDeleted h hcone k
  | constraintDeleted hidle hcon => exact ledger_constraintDeleted hcon k
  | @termSet con v a hidle hv => cases k <;> exact .adjusted [] [(con, _)] rfl rfl rfl rfl rfl
  | @rhsSet con rhs hidle => cases k <;> exact .adjusted [] [(con, _)] rfl rfl rfl rfl rfl
  | @variableSet op v f hop hidle =>
      have hdeleted := deleted_of_variableEdit? (p := p) hop
        (.ok .done { p with vars := p.vars.adjust v f }) k
      cases k <;> exact .adjusted [(v, f)] [] rfl hdeleted rfl rfl rfl
  | objectiveAdded hidle hpending => cases k <;> exact .adjusted _ [] rfl rfl rfl rfl rfl
  | returned hs hret => cases k <;> exact .adjusted _ _ rfl rfl rfl rfl rfl
  | solved hidle hsolver hret => cases k <;> exact .adjusted _ _ rfl rfl rfl rfl rfl
  | settingsChosen | targetChosen | lent | kept | lentEdited | unsolved =>
      cases k <;> exact .adjusted [] [] rfl rfl rfl rfl rfl

def event (p : Program α) (op : Operation α) : Event α := ⟨p, op, op.perform.run p⟩

theorem ledger_event (h : p.Coherent) (op : Operation α) (k : Entity) : (op.event p).Ledger k := by
  have houtcome := outcome_perform h op
  rw [event]
  generalize op.perform.run p = r at houtcome
  cases houtcome with
  | refused hrefusal => exact .quiet (by cases k <;> rfl) (deleted_error ..) rfl rfl rfl
  | carriedOut hrefusal he => exact he.ledger h k

/-! ### Histories -/

def trace (p : Program α) : List (Operation α) → List (Event α)
  | [] => []
  | op :: ops => op.event p :: trace (op.event p).after ops

theorem performAll_cons (p : Program α) (op : Operation α) (ops : List (Operation α)) :
    performAll p (op :: ops) = performAll (op.event p).after ops := by
  rw [performAll, event, Event.after]
  cases op.perform.run p <;> rfl

theorem performAll_append (p : Program α) (ops more : List (Operation α)) :
    performAll p (ops ++ more) = performAll (performAll p ops) more := by
  induction ops generalizing p with
  | nil => rfl
  | cons op ops ih => rw [List.cons_append, performAll_cons, ih, performAll_cons]

theorem trace_append (p : Program α) (ops more : List (Operation α)) :
    trace p (ops ++ more) = trace p ops ++ trace (performAll p ops) more := by
  induction ops generalizing p with
  | nil => rfl
  | cons op ops ih => rw [List.cons_append, trace, ih, performAll_cons, trace, List.cons_append]

def Issued (p : Program α) (ops : List (Operation α)) {k : Entity} (h : Handle k) : Prop :=
  ∃ e ∈ trace p ops, h ∈ e.issued k

def Deleted (p : Program α) (ops : List (Operation α)) {k : Entity} (h : Handle k) : Prop :=
  ∃ e ∈ trace p ops, h ∈ e.deleted k

variable {ops : List (Operation α)} {k : Entity} {h : Handle k}

theorem performAll_concat (p : Program α) (ops : List (Operation α)) (op : Operation α) :
    performAll p (ops ++ [op]) = (op.event (performAll p ops)).after := by
  rw [performAll_append, performAll_cons, performAll]

theorem trace_concat (p : Program α) (ops : List (Operation α)) (op : Operation α) :
    trace p (ops ++ [op]) = trace p ops ++ [op.event (performAll p ops)] := by
  rw [trace_append, trace, trace]

theorem issued_concat :
    Issued p (ops ++ [op]) h ↔ Issued p ops h ∨ h ∈ (op.event (performAll p ops)).issued k := by
  simp [Issued, trace_concat, or_and_right, exists_or]

theorem deleted_concat :
    Deleted p (ops ++ [op]) h ↔ Deleted p ops h ∨ h ∈ (op.event (performAll p ops)).deleted k := by
  simp [Deleted, trace_concat, or_and_right, exists_or]

/-- What a history tells about the handles of one kind. -/
structure Chronicle (p : Program α) (ops : List (Operation α)) (k : Entity) : Prop where
  number_eq : (performAll p ops).number = p.number
  program_of_issued : ∀ h : Handle k, Issued p ops h → h.program = p.number
  slot_lt : ∀ h : Handle k, Issued p ops h → h.slot < (performAll p ops).slotCount k
  issued_of_deleted : ∀ h : Handle k, Deleted p ops h → Issued p ops h
  live_iff : ∀ h : Handle k, h ∈ (performAll p ops).handles k ↔ Issued p ops h ∧ ¬Deleted p ops h

/-- A handle that comes out now has a slot of its own, so nothing has happened to it before. -/
theorem Chronicle.not_issued (hc : Chronicle p ops k) {op : Operation α}
    (hl : (op.event (performAll p ops)).Ledger k)
    (hnew : h ∈ (op.event (performAll p ops)).issued k) : ¬Issued p ops h := by
  intro hold
  exact Nat.lt_irrefl _ (Nat.lt_of_lt_of_le (hc.slot_lt h hold) (hl.slot_of_mem_issued hnew).2.1)

theorem Chronicle.concat (hc : Chronicle p ops k) {op : Operation α}
    (hl : (op.event (performAll p ops)).Ledger k) : Chronicle p (ops ++ [op]) k := by
  have hafter := performAll_concat p ops op
  have hgone : ∀ h : Handle k, h ∈ (op.event (performAll p ops)).deleted k →
      Issued p ops h := fun h hh => ((hc.live_iff h).1 (hl.live_of_deleted h hh)).1
  constructor
  case number_eq => rw [hafter, hl.number_eq, event, hc.number_eq]
  case program_of_issued =>
    intro h hh
    rcases issued_concat.1 hh with hold | hnew
    · exact hc.program_of_issued h hold
    · exact (hl.slot_of_mem_issued hnew).1.trans hc.number_eq
  case slot_lt =>
    intro h hh
    rw [hafter]
    rcases issued_concat.1 hh with hold | hnew
    · exact Nat.lt_of_lt_of_le (hc.slot_lt h hold) hl.slotCount_le
    · exact (hl.slot_of_mem_issued hnew).2.2
  case issued_of_deleted =>
    intro h hh
    rw [issued_concat]
    rcases deleted_concat.1 hh with hold | hnow
    · exact .inl (hc.issued_of_deleted h hold)
    · exact .inl (hgone h hnow)
  case live_iff =>
    intro h
    have hlive := hc.live_iff h
    have hbefore := hc.issued_of_deleted h
    rw [hafter, hl.mem_handles_iff, issued_concat, deleted_concat]
    have hnew := hc.not_issued (h := h) hl
    have hold := hgone h
    change (h ∈ (performAll p ops).handles k ∧ _ ∨ _) ↔ _
    tauto

theorem chronicle_of_empty (id : Nat) (settings : Settings α) (ops : List (Operation α))
    (k : Entity) : Chronicle (.empty id settings) ops k := by
  induction ops using List.reverseRecOn with
  | nil =>
      have hnone : ∀ h : Handle k, ¬Issued (.empty id settings : Program α) [] h := by
        rintro h ⟨e, he, -⟩
        cases he
      have hlive : ∀ h : Handle k, h ∉ (Program.empty id settings : Program α).handles k := by
        intro h hh
        cases k <;> cases hh
      constructor
      case number_eq => rfl
      case program_of_issued => exact fun h hh => (hnone h hh).elim
      case slot_lt => exact fun h hh => (hnone h hh).elim
      case issued_of_deleted =>
        rintro h ⟨e, he, -⟩
        cases he
      case live_iff => exact fun h => iff_of_false (hlive h) fun hh => hnone h hh.1
  | append_singleton ops op ih =>
      exact ih.concat (ledger_event (coherent_of_empty id settings ops) op k)

end Operation

end Socp
