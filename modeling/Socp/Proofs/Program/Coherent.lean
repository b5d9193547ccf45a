import Socp.Program.Loan
import Socp.Proofs.Store.Batch
import Socp.Proofs.Terms

/-!
The invariant that ties the parts of a program together, and the changes that operations make to
the graph, each of which keeps it. Everything hinges on one equation: going through the cones lists
the live variables in the order of their creation.
-/

namespace Socp

namespace Program

variable {α : Type}

/-- The stores, the counts and the loan of a program fit together. -/
structure Coherent (p : Program α) : Prop where
  cones_program : p.cones.program = p.vars.program
  constraints_program : p.constraints.program = p.vars.program
  /-- The variables of the live cones, cone by cone, are the live variables. -/
  columnOrder_eq : p.columnOrder = p.vars.handles
  owner : ∀ {id c}, p.cones.find id = .ok c → ∀ v ∈ c.vars, ∃ x, p.vars.find v = .ok x ∧ x.cone = id
  consecutive : ∀ {id c}, p.cones.find id = .ok c →
    ∃ first, c.vars.map (·.slot) = List.range' first c.dim
  terms_live : ∀ {con c}, p.constraints.find con = .ok c →
    ∀ t ∈ c.terms.toList, t.1 ∈ p.vars.handles
  kindCounts_eq : ∀ kind, p.kindCounts.get kind = p.cones.values.countP (·.kind = kind)
  session_order : ∀ s, p.session = some s → s.columns = p.columnOrder ∧ s.rows = p.rowOrder

theorem coherent_empty (id : Nat) (settings : Settings α) : (empty id settings).Coherent where
  cones_program := rfl
  constraints_program := rfl
  columnOrder_eq := rfl
  owner hf := by
    rw [← Store.mem_toList_iff] at hf
    cases hf
  consecutive hf := by
    rw [← Store.mem_toList_iff] at hf
    cases hf
  terms_live hf := by
    rw [← Store.mem_toList_iff] at hf
    cases hf
  kindCounts_eq kind := KindCounts.get_none kind
  session_order s hs := by cases hs

theorem columnOrder_eq_flatMap (p : Program α) :
    p.columnOrder = p.cones.toList.flatMap fun e => e.2.vars := by
  rw [columnOrder, Store.values, List.flatMap_map]

namespace Coherent

variable {p : Program α}

theorem session_order_of_idle {p : Program α} (hidle : p.session = none)
    {columns : List VariableId} {rows : List ConstraintId} :
    ∀ s, p.session = some s → s.columns = columns ∧ s.rows = rows := by
  intro s hs
  rw [hidle] at hs
  cases hs

theorem cone_unique (h : p.Coherent) {id id' : ConeId} {c c' : Cone}
    (hc : p.cones.find id = .ok c) (hc' : p.cones.find id' = .ok c') {v : VariableId}
    (hv : v ∈ c.vars) (hv' : v ∈ c'.vars) : id = id' := by
  obtain ⟨x, hx, rfl⟩ := h.owner hc v hv
  obtain ⟨y, hy, rfl⟩ := h.owner hc' v hv'
  rw [hx] at hy
  cases hy
  rfl

theorem live_of_mem_vars (h : p.Coherent) {id : ConeId} {c : Cone} (hc : p.cones.find id = .ok c)
    {v : VariableId} (hv : v ∈ c.vars) : v ∈ p.vars.handles := by
  obtain ⟨x, hx, -⟩ := h.owner hc v hv
  exact Store.mem_handles_iff.2 ⟨x, hx⟩

theorem vars_nodup (h : p.Coherent) {id : ConeId} {c : Cone} (hc : p.cones.find id = .ok c) :
    c.vars.Nodup := by
  have hnodup : p.columnOrder.Nodup := h.columnOrder_eq ▸ p.vars.handles_nodup
  rw [columnOrder_eq_flatMap, List.nodup_flatMap] at hnodup
  exact hnodup.1 _ (Store.mem_toList_iff.2 hc)

/-- A live variable belongs to a live cone, the one it names. -/
theorem exists_cone (h : p.Coherent) {v : VariableId} {x : Variable α}
    (hv : p.vars.find v = .ok x) : ∃ c, p.cones.find x.cone = .ok c ∧ v ∈ c.vars := by
  have hmem : v ∈ p.columnOrder := by
    rw [h.columnOrder_eq]
    exact Store.mem_handles_iff.2 ⟨x, hv⟩
  rw [columnOrder_eq_flatMap, List.mem_flatMap] at hmem
  obtain ⟨⟨id, c⟩, hc, hmem⟩ := hmem
  rw [Store.mem_toList_iff] at hc
  obtain ⟨y, hy, rfl⟩ := h.owner hc v hmem
  rw [hv] at hy
  cases hy
  exact ⟨c, hc, hmem⟩

end Coherent

/-! ### Changes of stored values -/

theorem Coherent.output {p : Program α} (h : p.Coherent) (target : PrintTarget) :
    { p with output := target }.Coherent :=
  { h with }

theorem Coherent.settings {p : Program α} (h : p.Coherent) (settings : Settings α) :
    { p with settings := settings }.Coherent :=
  { h with }

theorem Coherent.session {p : Program α} (h : p.Coherent) (session : Option (Session α))
    (hs : ∀ s, session = some s → s.columns = p.columnOrder ∧ s.rows = p.rowOrder) :
    { p with session := session }.Coherent :=
  { h with session_order := hs }

theorem Coherent.adjustVar {p : Program α} (h : p.Coherent) (v : VariableId)
    {f : Variable α → Variable α} (hf : ∀ x, (f x).cone = x.cone) :
    { p with vars := p.vars.adjust v f }.Coherent where
  cones_program := h.cones_program.trans (Store.program_adjust ..).symm
  constraints_program := h.constraints_program.trans (Store.program_adjust ..).symm
  columnOrder_eq := h.columnOrder_eq.trans (Store.handles_adjust ..).symm
  owner hc w hw := by
    obtain ⟨x, hx, hid⟩ := h.owner hc w hw
    have hlive : w ∈ (p.vars.adjust v f).handles := by
      rw [Store.handles_adjust]
      exact Store.mem_handles_iff.2 ⟨x, hx⟩
    obtain ⟨y, hy⟩ := Store.mem_handles_iff.1 hlive
    obtain ⟨x', hx', hyx⟩ := Store.find_adjust_cases hy
    rw [hx] at hx'
    cases hx'
    refine ⟨y, hy, ?_⟩
    rcases hyx with rfl | rfl
    · exact hid
    · exact (hf x).trans hid
  consecutive := h.consecutive
  terms_live hc t ht := by
    rw [Store.handles_adjust]
    exact h.terms_live hc t ht
  kindCounts_eq := h.kindCounts_eq
  session_order := h.session_order

theorem Coherent.adjustVars {p : Program α} (h : p.Coherent)
    {l : List (VariableId × (Variable α → Variable α))} (hl : ∀ t ∈ l, ∀ x, (t.2 x).cone = x.cone) :
    { p with vars := p.vars.adjustAll l }.Coherent := by
  induction l generalizing p with
  | nil => exact h
  | cons t l ih =>
      have ht := h.adjustVar t.1 (hl t List.mem_cons_self)
      exact ih ht fun t' ht' => hl t' (List.mem_cons_of_mem t ht')

theorem Coherent.adjustConstraint {p : Program α} (h : p.Coherent) (con : ConstraintId)
    {f : Constraint α → Constraint α}
    (hf : ∀ c, ∀ t ∈ (f c).terms.toList, t ∈ c.terms.toList ∨ t.1 ∈ p.vars.handles) :
    { p with constraints := p.constraints.adjust con f }.Coherent where
  cones_program := h.cones_program
  constraints_program := (Store.program_adjust ..).trans h.constraints_program
  columnOrder_eq := h.columnOrder_eq
  owner := h.owner
  consecutive := h.consecutive
  terms_live hc t ht := by
    obtain ⟨c, hfind, hc'⟩ := Store.find_adjust_cases hc
    rcases hc' with rfl | rfl
    · exact h.terms_live hfind t ht
    · rcases hf c t ht with hmem | hlive
      · exact h.terms_live hfind t hmem
      · exact hlive
  kindCounts_eq := h.kindCounts_eq
  session_order s hs := by
    rw [rowOrder, Store.handles_adjust]
    exact h.session_order s hs

theorem Coherent.adjustConstraints {p : Program α} (h : p.Coherent)
    {l : List (ConstraintId × (Constraint α → Constraint α))}
    (hl : ∀ t ∈ l, ∀ c, (t.2 c).terms = c.terms) :
    { p with constraints := p.constraints.adjustAll l }.Coherent := by
  induction l generalizing p with
  | nil => exact h
  | cons t l ih =>
      have hkeep : ∀ c, ∀ e ∈ (t.2 c).terms.toList, e ∈ c.terms.toList ∨ e.1 ∈ p.vars.handles := by
        intro c e he
        rw [hl t List.mem_cons_self] at he
        exact .inl he
      exact ih (h.adjustConstraint t.1 hkeep) fun t' ht' => hl t' (List.mem_cons_of_mem t ht')

/-! ### Creation -/

theorem Coherent.insertConstraint [Zero α] {p : Program α} (h : p.Coherent)
    (hidle : p.session = none) :
    { p with constraints := (p.constraints.insert .blank).2 }.Coherent where
  cones_program := h.cones_program
  constraints_program := h.constraints_program
  columnOrder_eq := h.columnOrder_eq
  owner := h.owner
  consecutive := h.consecutive
  terms_live hc t ht := by
    rw [Store.find_insert] at hc
    split at hc
    · cases hc
      cases ht
    · exact h.terms_live hc t ht
  kindCounts_eq := h.kindCounts_eq
  session_order := session_order_of_idle hidle

/-- The program with one cone more, over new variables. -/
def withCone [Zero α] (p : Program α) (cone : Cone) : Program α :=
  { p with
    vars := (p.vars.insertCopies (Variable.blank p.cones.nextHandle) cone.dim).2
    cones := (p.cones.insert cone).2
    kindCounts := p.kindCounts.increment cone.kind }

theorem find_vars_withCone [Zero α] (p : Program α) (cone : Cone) (v : VariableId)
    (x : Variable α) :
    (p.withCone cone).vars.find v = .ok x ↔
      p.vars.find v = .ok x ∨
        v ∈ (p.vars.insertCopies (Variable.blank p.cones.nextHandle) cone.dim).1 ∧
          x = Variable.blank p.cones.nextHandle := by
  rw [← Store.mem_toList_iff, withCone, Store.toList_insertCopies, List.mem_append,
    Store.mem_toList_iff, List.mem_map]
  refine or_congr_right ?_
  constructor
  · rintro ⟨w, hw, heq⟩
    cases heq
    exact ⟨hw, rfl⟩
  · rintro ⟨hv, rfl⟩
    exact ⟨v, hv, rfl⟩

theorem find_cones_withCone [Zero α] (p : Program α) (cone : Cone) (id : ConeId) :
    (p.withCone cone).cones.find id =
      if id = p.cones.nextHandle then .ok cone else p.cones.find id :=
  Store.find_insert ..

theorem Coherent.withCone [Zero α] {p : Program α} (h : p.Coherent) (hidle : p.session = none)
    {cone : Cone}
    (hvars : cone.vars =
      (p.vars.insertCopies (Variable.blank p.cones.nextHandle : Variable α) cone.dim).1) :
    (p.withCone cone).Coherent where
  cones_program := h.cones_program.trans (Store.program_insertCopies ..).symm
  constraints_program := h.constraints_program.trans (Store.program_insertCopies ..).symm
  columnOrder_eq := by
    -- the new variables come last on both sides
    show (p.cones.insert cone).2.values.flatMap Cone.vars = _
    rw [Store.values_insert, List.flatMap_append, List.flatMap_singleton, Program.withCone,
      Store.handles_insertCopies, ← hvars]
    exact congrArg (· ++ cone.vars) h.columnOrder_eq
  owner hc v hv := by
    rw [find_cones_withCone] at hc
    split at hc
    case isTrue hid =>
      cases hc
      refine ⟨Variable.blank p.cones.nextHandle, ?_, hid.symm⟩
      rw [find_vars_withCone]
      exact .inr ⟨hvars ▸ hv, rfl⟩
    case isFalse =>
      obtain ⟨x, hx, hid⟩ := h.owner hc v hv
      exact ⟨x, (find_vars_withCone ..).2 (.inl hx), hid⟩
  consecutive hc := by
    rw [find_cones_withCone] at hc
    split at hc
    case isTrue =>
      cases hc
      refine ⟨p.vars.slots.size, ?_⟩
      rw [hvars, Store.insertCopies_handles, List.map_map]
      exact List.map_id _
    case isFalse => exact h.consecutive hc
  terms_live hc t ht := by
    rw [Program.withCone, Store.handles_insertCopies, List.mem_append]
    exact .inl (h.terms_live hc t ht)
  kindCounts_eq kind := by
    show (p.kindCounts.increment cone.kind).get kind = (p.cones.insert cone).2.values.countP _
    rw [Store.values_insert, List.countP_append, KindCounts.increment, KindCounts.get_set,
      ← h.kindCounts_eq]
    by_cases hk : kind = cone.kind
    · simp [hk]
    · simp [hk, Ne.symm hk]
  session_order := session_order_of_idle hidle

/-! ### Deletion -/

theorem Coherent.deleteConstraint {p : Program α} (h : p.Coherent) (hidle : p.session = none)
    {con : ConstraintId} {c : Constraint α} (hc : p.constraints.find con = .ok c) :
    { p with constraints := p.constraints.assign con.slot none }.Coherent where
  cones_program := h.cones_program
  constraints_program := (Store.program_assign ..).trans h.constraints_program
  columnOrder_eq := h.columnOrder_eq
  owner := h.owner
  consecutive := h.consecutive
  terms_live hf t ht := by
    rw [Store.find_assign hc] at hf
    split at hf
    · cases hf
    · exact h.terms_live hf t ht
  kindCounts_eq := h.kindCounts_eq
  session_order := session_order_of_idle hidle

/-- The program without a cone, its variables and the terms that refer to them. -/
def withoutCone (p : Program α) (id : ConeId) (cone : Cone) : Program α :=
  { p with
    cones := p.cones.assign id.slot none
    vars := p.vars.clear cone.vars
    constraints := p.constraints.mapValues (·.eraseTerms cone.vars)
    kindCounts := p.kindCounts.set cone.kind (p.kindCounts.get cone.kind - 1) }

theorem find_cones_withoutCone {p : Program α} {id id' : ConeId} {cone c : Cone}
    (hcone : p.cones.find id = .ok cone) :
    (p.withoutCone id cone).cones.find id' = .ok c ↔ id' ≠ id ∧ p.cones.find id' = .ok c := by
  show (p.cones.assign id.slot none).find id' = .ok c ↔ _
  rw [Store.find_assign hcone]
  split
  case isTrue heq => simp [heq]
  case isFalse hne => simp [hne]

theorem find_constraints_withoutCone {p : Program α} {id : ConeId} {cone : Cone}
    {con : ConstraintId} {c : Constraint α}
    (hc : (p.withoutCone id cone).constraints.find con = .ok c) :
    ∃ old, p.constraints.find con = .ok old ∧ c = old.eraseTerms cone.vars := by
  change (p.constraints.mapValues _).find con = .ok c at hc
  rw [Store.find_mapValues] at hc
  cases hfind : p.constraints.find con with
  | error e =>
      rw [hfind] at hc
      cases hc
  | ok old =>
      rw [hfind] at hc
      cases hc
      exact ⟨old, rfl, rfl⟩

namespace Coherent

variable {p : Program α} {id : ConeId} {cone : Cone}

theorem find_vars_withoutCone (h : p.Coherent) (hcone : p.cones.find id = .ok cone)
    (v : VariableId) :
    (p.withoutCone id cone).vars.find v =
      if v ∈ cone.vars then .error (.staleHandle .var) else p.vars.find v :=
  Store.find_clear (h.vars_nodup hcone) (fun _ => h.live_of_mem_vars hcone) v

theorem handles_vars_withoutCone (h : p.Coherent) (hcone : p.cones.find id = .ok cone) :
    (p.withoutCone id cone).vars.handles = p.vars.handles.filter (· ∉ cone.vars) :=
  Store.handles_clear (h.vars_nodup hcone) fun _ => h.live_of_mem_vars hcone

theorem columnOrder_withoutCone (h : p.Coherent) (hcone : p.cones.find id = .ok cone) :
    (p.withoutCone id cone).columnOrder = p.columnOrder.filter (· ∉ cone.vars) := by
  obtain ⟨before, after, hl, hcut⟩ := Store.toList_cut hcone
  have hnodup : p.columnOrder.Nodup := h.columnOrder_eq ▸ p.vars.handles_nodup
  -- the variables of the cone stand together, between those of earlier and of later cones
  have horder : p.columnOrder =
      before.flatMap (fun e => e.2.vars) ++
        (cone.vars ++ after.flatMap fun e => e.2.vars) := by
    rw [columnOrder_eq_flatMap, hl, List.flatMap_append, List.flatMap_cons]
  rw [horder] at hnodup ⊢
  rw [columnOrder_eq_flatMap, Program.withoutCone, hcut, List.flatMap_append]
  have hfilter := filter_not_mem_stretch (fun v => v) (by rwa [List.map_id'])
  rw [List.map_id'] at hfilter
  exact hfilter.symm

theorem kindCounts_withoutCone (h : p.Coherent) (hcone : p.cones.find id = .ok cone)
    (kind : ConeKind) :
    (p.withoutCone id cone).kindCounts.get kind =
      (p.withoutCone id cone).cones.values.countP (·.kind = kind) := by
  obtain ⟨before, after, hl, hcut⟩ := Store.toList_cut hcone
  have hcount := h.kindCounts_eq
  show (p.kindCounts.set _ _).get kind = (p.cones.assign id.slot none).values.countP _
  simp only [Store.values, hl, hcut, List.map_append, List.map_cons, List.countP_append,
    List.countP_cons, KindCounts.get_set] at hcount ⊢
  rw [hcount cone.kind]
  split
  case isTrue heq =>
    subst heq
    simp
  case isFalse hne =>
    rw [hcount kind]
    simp [Ne.symm hne]

theorem withoutCone (h : p.Coherent) (hidle : p.session = none)
    (hcone : p.cones.find id = .ok cone) : (p.withoutCone id cone).Coherent where
  cones_program :=
    (Store.program_assign ..).trans (h.cones_program.trans (Store.program_clear ..).symm)
  constraints_program := h.constraints_program.trans (Store.program_clear ..).symm
  columnOrder_eq := by
    rw [h.columnOrder_withoutCone hcone, h.handles_vars_withoutCone hcone, h.columnOrder_eq]
  owner hc v hv := by
    obtain ⟨hne, hc⟩ := (find_cones_withoutCone hcone).1 hc
    obtain ⟨x, hx, hid⟩ := h.owner hc v hv
    have hv' : v ∉ cone.vars := fun hmem => hne (h.cone_unique hc hcone hv hmem)
    refine ⟨x, ?_, hid⟩
    rw [h.find_vars_withoutCone hcone, if_neg hv', hx]
  consecutive hc := h.consecutive ((find_cones_withoutCone hcone).1 hc).2
  terms_live hc t ht := by
    obtain ⟨old, hfind, rfl⟩ := find_constraints_withoutCone hc
    obtain ⟨hmem, hnot⟩ := Terms.mem_eraseAll.1 ht
    rw [h.handles_vars_withoutCone hcone, List.mem_filter]
    exact ⟨h.terms_live hfind t hmem, by simpa using hnot⟩
  kindCounts_eq := h.kindCounts_withoutCone hcone
  session_order := session_order_of_idle hidle

end Coherent

end Program

end Socp
