import Socp.Learning.Expression
import Socp.Program.Graph
import Socp.Program.Run
import Socp.Proofs.Program.Coherent

/-!
What each edit of the graph and of its numbers comes to: the answer or the refusal, and the program
that is left, in one equation for each operation. A refused edit leaves the program as it was.
-/

namespace Socp

namespace ProgramM

variable {α : Type}

/-! ### Loops of replacements -/

theorem run_updateVariable_of_live {p : Program α} {v : VariableId} (hv : v ∈ p.vars.handles)
    (f : Variable α → Variable α) :
    (updateVariable v f).run p = .ok () { p with vars := p.vars.adjust v f } := by
  obtain ⟨x, hx⟩ := Store.mem_handles_iff.1 hv
  rw [run_updateVariable, Store.update_eq_adjust hx]

theorem run_updateConstraint_of_live {p : Program α} {con : ConstraintId}
    (hcon : con ∈ p.constraints.handles) (f : Constraint α → Constraint α) :
    (updateConstraint con f).run p =
      .ok () { p with constraints := p.constraints.adjust con f } := by
  obtain ⟨c, hc⟩ := Store.mem_handles_iff.1 hcon
  rw [run_updateConstraint, Store.update_eq_adjust hc]

theorem run_forM_nil {γ : Type} (body : γ → ProgramM α PUnit) (p : Program α) :
    (([] : List γ).forM body).run p = .ok ⟨⟩ p := rfl

theorem run_forM_cons {γ : Type} (body : γ → ProgramM α PUnit) (t : γ) (l : List γ)
    (p : Program α) :
    ((t :: l).forM body).run p =
      match (body t).run p with
      | .ok _ q => (l.forM body).run q
      | .error fault q => .error fault q := by
  show (body t >>= fun _ => l.forM body).run p = _
  rw [run_bind]
  cases (body t).run p <;> rfl

theorem run_forM_updateVariable {γ : Type} {p : Program α} (l : List γ)
    (t : γ → VariableId × (Variable α → Variable α)) (hl : ∀ e ∈ l, (t e).1 ∈ p.vars.handles) :
    (l.forM fun e => updateVariable (t e).1 (t e).2).run p =
      .ok ⟨⟩ { p with vars := p.vars.adjustAll (l.map t) } := by
  induction l generalizing p with
  | nil => rfl
  | cons e l ih =>
      rw [run_forM_cons, run_updateVariable_of_live (hl e List.mem_cons_self)]
      refine ih ?_
      intro e' he'
      rw [Store.handles_adjust]
      exact hl e' (List.mem_cons_of_mem e he')

theorem run_forM_updateConstraint {γ : Type} {p : Program α} (l : List γ)
    (t : γ → ConstraintId × (Constraint α → Constraint α))
    (hl : ∀ e ∈ l, (t e).1 ∈ p.constraints.handles) :
    (l.forM fun e => updateConstraint (t e).1 (t e).2).run p =
      .ok ⟨⟩ { p with constraints := p.constraints.adjustAll (l.map t) } := by
  induction l generalizing p with
  | nil => rfl
  | cons e l ih =>
      rw [run_forM_cons, run_updateConstraint_of_live (hl e List.mem_cons_self)]
      refine ih ?_
      intro e' he'
      rw [Store.handles_adjust]
      exact hl e' (List.mem_cons_of_mem e he')

/-! ### Creation and deletion -/

theorem run_requireIdle_then {β : Type} (op : ProgramM α β) (p : Program α) :
    (requireIdle >>= fun _ => op).run p =
      if p.session.isSome then .error (.refused .checkedOut) p else op.run p := by
  rw [run_bind, run_requireIdle]
  cases p.session <;> rfl

theorem run_createCone_of_session [Zero α] {p : Program α} (h : p.session.isSome)
    (kind : ConeKind) (n : Nat) :
    (createCone kind n).run p = .error (.refused .checkedOut) p := by
  rw [createCone, run_requireIdle_then, if_pos h]

theorem run_createCone_of_lt [Zero α] {p : Program α} (hidle : p.session = none)
    {kind : ConeKind} {n : Nat} (hn : n < kind.minDim) :
    (createCone kind n).run p = .error (.refused (.badConeDimension kind n kind.minDim)) p := by
  rw [createCone, run_requireIdle_then, if_neg (by simp [hidle]), if_pos hn, run_bind, run_refuse]

theorem exists_cone_of_length {kind : ConeKind} {vs : List VariableId}
    (hmin : kind.minDim ≤ vs.length) (horthant : kind = .orthant → vs.length = 1) :
    ∃ cone, Cone.ofVariables? kind vs = some cone := by
  cases kind with
  | orthant =>
      obtain ⟨x, rfl⟩ := List.length_eq_one_iff.1 (horthant rfl)
      exact ⟨_, rfl⟩
  | secondOrder =>
      cases hlast : vs.getLast? with
      | none =>
          rw [List.getLast?_eq_none_iff] at hlast
          subst hlast
          cases hmin
      | some a => exact ⟨_, by rw [Cone.ofVariables?, hlast, Option.map_some]⟩
  | rotated =>
      cases vs with
      | nil => cases hmin
      | cons u rest =>
          cases rest with
          | nil =>
              change 2 ≤ 1 at hmin
              omega
          | cons v inner => exact ⟨_, rfl⟩

theorem run_createCone [Zero α] {p : Program α} (hidle : p.session = none) {kind : ConeKind}
    {n : Nat} (hmin : kind.minDim ≤ n) (horthant : kind = .orthant → n = 1) :
    ∃ cone : Cone, cone.kind = kind ∧ cone.dim = n ∧
      cone.vars =
        (p.vars.insertCopies (Variable.blank p.cones.nextHandle : Variable α) cone.dim).1 ∧
      (createCone kind n).run p = .ok p.cones.nextHandle (p.withCone cone) := by
  let vs := (p.vars.insertCopies (Variable.blank p.cones.nextHandle : Variable α) n).1
  have hlen : vs.length = n := by simp [vs, Store.insertCopies_handles]
  have hmin' : kind.minDim ≤ vs.length := hlen.symm ▸ hmin
  obtain ⟨cone, hcone⟩ := exists_cone_of_length hmin' (hlen.symm ▸ horthant)
  obtain ⟨hkind, hvars⟩ := Cone.vars_of_ofVariables? hcone
  have hdim : cone.dim = n := by rw [Cone.dim, hvars, hlen]
  refine ⟨cone, hkind, hdim, ?_, ?_⟩
  · rw [hdim, hvars]
  · have hcone' : Cone.ofVariables? kind
        (p.vars.insertCopies (Variable.blank p.cones.nextHandle : Variable α) n).1 = some cone :=
      hcone
    have hid : (p.cones.insert cone).1 = p.cones.nextHandle := rfl
    rw [createCone, run_requireIdle_then, if_neg (by simp [hidle])]
    simp only [run_bind, if_neg (Nat.not_lt.2 hmin), setVariables, setCones, run_get, run_modify,
      run_lift, hcone', Fault.ofOption, hid, ne_eq, not_true_eq_false, if_false, run_pure,
      Program.withCone, hdim, hkind]

theorem run_createConstraint [Zero α] (p : Program α) :
    (createConstraint : ProgramM α ConstraintId).run p =
      if p.session.isSome then .error (.refused .checkedOut) p
      else .ok p.constraints.nextHandle
        { p with constraints := (p.constraints.insert .blank).2 } := by
  rw [createConstraint, run_requireIdle_then]
  rfl

theorem run_deleteConstraint (p : Program α) (con : ConstraintId) :
    (deleteConstraint con).run p =
      if p.session.isSome then .error (.refused .checkedOut) p
      else match p.constraints.find con with
        | .ok _ => .ok ⟨⟩ { p with constraints := p.constraints.assign con.slot none }
        | .error cause => .error (.refused cause) p := by
  rw [deleteConstraint, run_requireIdle_then, run_bind, run_ask, Store.remove]
  cases p.constraints.find con <;> rfl

theorem run_deleteVariable {p : Program α} {v : VariableId} (hv : v ∈ p.vars.handles) :
    (deleteVariable v).run p =
      .ok ⟨⟩ { p with
        vars := p.vars.assign v.slot none
        constraints := p.constraints.mapValues (·.eraseTerm v) } := by
  obtain ⟨x, hx⟩ := Store.mem_handles_iff.1 hv
  have hr : p.vars.remove v = .ok (x, p.vars.assign v.slot none) :=
    Store.remove_eq_ok_iff.2 ⟨hx, rfl⟩
  simp only [deleteVariable, run_bind, run_modify, run_ask, hr, setVariables]

theorem run_forM_deleteVariable {p : Program α} {vs : List VariableId} (hnodup : vs.Nodup)
    (hlive : ∀ v ∈ vs, v ∈ p.vars.handles) :
    (vs.forM deleteVariable).run p =
      .ok ⟨⟩ { p with
        vars := p.vars.clear vs
        constraints := p.constraints.mapValues (·.eraseTerms vs) } := by
  induction vs generalizing p with
  | nil =>
      rw [run_forM_nil]
      simp only [Store.clear_nil, Constraint.eraseTerms_nil, Store.mapValues_id]
  | cons v vs ih =>
      have hrest := Store.live_assign_none hnodup hlive
      rw [run_forM_cons, run_deleteVariable (hlive v List.mem_cons_self)]
      refine Eq.trans (ih (List.nodup_cons.1 hnodup).2 hrest) ?_
      simp only [Store.mapValues_mapValues, Constraint.eraseTerms_eraseTerm, Store.clear_cons]

theorem run_deleteCone {p : Program α} (h : p.Coherent) (id : ConeId) :
    (deleteCone id).run p =
      if p.session.isSome then .error (.refused .checkedOut) p
      else match p.cones.find id with
        | .ok cone => .ok ⟨⟩ (p.withoutCone id cone)
        | .error cause => .error (.refused cause) p := by
  rw [deleteCone, run_requireIdle_then]
  cases hcone : p.cones.find id with
  | error cause => simp only [run_bind, run_ask, Store.remove_eq_error hcone]
  | ok cone =>
      have hr : p.cones.remove id = .ok (cone, p.cones.assign id.slot none) :=
        Store.remove_eq_ok_iff.2 ⟨hcone, rfl⟩
      -- the counter cannot fall below zero, as it counts the cone that goes
      have hpos : 0 < p.kindCounts.get cone.kind := by
        rw [h.kindCounts_eq]
        refine List.countP_pos_iff.2 ⟨cone, Store.mem_values_iff.2 ⟨id, hcone⟩, ?_⟩
        simp
      have hdecr : p.kindCounts.decrement? cone.kind =
          some (p.kindCounts.set cone.kind (p.kindCounts.get cone.kind - 1)) := by
        rw [KindCounts.decrement?, if_neg (Nat.ne_of_gt hpos)]
      have hloop := run_forM_deleteVariable (p := { p with cones := p.cones.assign id.slot none })
        (h.vars_nodup hcone) fun v => h.live_of_mem_vars hcone
      simp only [run_bind, run_ask, hr, setCones, run_modify, hloop, run_get, run_lift, hdecr,
        Fault.ofOption, Program.withoutCone]

/-! ### Numbers -/

theorem run_addVariable [Zero α] [BEq α] (p : Program α) (con : ConstraintId) (v : VariableId)
    (a : α) :
    (addVariable con v a).run p =
      if p.session.isSome then .error (.refused .checkedOut) p
      else match p.vars.find v with
        | .error cause => .error (.refused cause) p
        | .ok _ =>
          match p.constraints.find con with
          | .error cause => .error (.refused cause) p
          | .ok _ => .ok ⟨⟩ { p with
              constraints := p.constraints.adjust con (·.setTerm v a p.settings.dropZeros) } := by
  rw [addVariable, run_requireIdle_then]
  cases hv : p.vars.find v with
  | error cause => simp only [run_bind, run_ask, hv]
  | ok x =>
      cases hcon : p.constraints.find con with
      | error cause =>
          simp only [run_bind, run_ask, hv, run_get, run_updateConstraint,
            Store.update_eq_error hcon]
      | ok c =>
          simp only [run_bind, run_ask, hv, run_get, run_updateConstraint,
            Store.update_eq_adjust hcon]

/-- Edits of one variable share their shape. -/
theorem run_requireIdle_updateVariable (p : Program α) (v : VariableId)
    (f : Variable α → Variable α) :
    (requireIdle >>= fun _ => updateVariable v f).run p =
      if p.session.isSome then .error (.refused .checkedOut) p
      else match p.vars.find v with
        | .ok _ => .ok ⟨⟩ { p with vars := p.vars.adjust v f }
        | .error cause => .error (.refused cause) p := by
  rw [run_requireIdle_then, run_updateVariable]
  cases hv : p.vars.find v with
  | error cause => rw [Store.update_eq_error hv]
  | ok x => rw [Store.update_eq_adjust hv]

theorem run_setObjectiveCoefficient (p : Program α) (v : VariableId) (c : α) :
    (setObjectiveCoefficient v c).run p =
      if p.session.isSome then .error (.refused .checkedOut) p
      else match p.vars.find v with
        | .ok _ => .ok ⟨⟩ { p with vars := p.vars.adjust v ({ · with objective := c }) }
        | .error cause => .error (.refused cause) p :=
  run_requireIdle_updateVariable p v _

theorem run_setPrimalValue (p : Program α) (v : VariableId) (x : α) :
    (setPrimalValue v x).run p =
      if p.session.isSome then .error (.refused .checkedOut) p
      else match p.vars.find v with
        | .ok _ => .ok ⟨⟩ { p with vars := p.vars.adjust v ({ · with primal := x }) }
        | .error cause => .error (.refused cause) p :=
  run_requireIdle_updateVariable p v _

theorem run_setDualValue (p : Program α) (v : VariableId) (s : α) :
    (setDualValue v s).run p =
      if p.session.isSome then .error (.refused .checkedOut) p
      else match p.vars.find v with
        | .ok _ => .ok ⟨⟩ { p with vars := p.vars.adjust v ({ · with dual := s }) }
        | .error cause => .error (.refused cause) p :=
  run_requireIdle_updateVariable p v _

theorem run_setConstrainedValue (p : Program α) (con : ConstraintId) (rhs : α) :
    (setConstrainedValue con rhs).run p =
      if p.session.isSome then .error (.refused .checkedOut) p
      else match p.constraints.find con with
        | .ok _ => .ok ⟨⟩ { p with
            constraints := p.constraints.adjust con ({ · with rhs := rhs }) }
        | .error cause => .error (.refused cause) p := by
  rw [setConstrainedValue, run_requireIdle_then, run_updateConstraint]
  cases hcon : p.constraints.find con with
  | error cause => rw [Store.update_eq_error hcon]
  | ok c => rw [Store.update_eq_adjust hcon]

theorem run_forM_setObjectiveCoefficient {p : Program α} (hidle : p.session = none)
    {l : List (VariableId × α)} (hl : ∀ t ∈ l, t.1 ∈ p.vars.handles) :
    (l.forM fun t => setObjectiveCoefficient t.1 t.2).run p =
      .ok ⟨⟩ { p with
        vars := p.vars.adjustAll (l.map fun t => (t.1, ({ · with objective := t.2 }))) } := by
  induction l generalizing p with
  | nil => rfl
  | cons t l ih =>
      obtain ⟨x, hx⟩ := Store.mem_handles_iff.1 (hl t List.mem_cons_self)
      rw [run_forM_cons, run_setObjectiveCoefficient, if_neg (by simp [hidle]), hx]
      refine ih hidle ?_
      intro t' ht'
      rw [Store.handles_adjust]
      exact hl t' (List.mem_cons_of_mem t ht')

end ProgramM

namespace Expression

variable {α : Type} [Add α] [Mul α]

theorem live_of_pend {p : Program α} {scale : α} {pending pending' : List (VariableId × α)}
    {t : Summand α} (hp : pend p scale pending t = .ok pending')
    (hlive : ∀ e ∈ pending, e.1 ∈ p.vars.handles) : ∀ e ∈ pending', e.1 ∈ p.vars.handles := by
  have hvar : t.var ∈ p.vars.handles ∧ ∃ c, pending' = (t.var, c) :: pending := by
    rw [pend] at hp
    cases hlook : pending.lookup t.var with
    | some c =>
        rw [hlook] at hp
        cases hp
        -- the variable has been looked up when it came first
        obtain ⟨before, after, rfl, -⟩ := List.lookup_eq_some_iff.1 hlook
        exact ⟨hlive (t.var, c) (by simp), _, rfl⟩
    | none =>
        rw [hlook] at hp
        cases hfind : p.vars.find t.var with
        | error e =>
            rw [Program.findVariable, hfind] at hp
            cases hp
        | ok x =>
            rw [Program.findVariable, hfind] at hp
            cases hp
            exact ⟨Store.mem_handles_iff.2 ⟨x, hfind⟩, _, rfl⟩
  obtain ⟨hv, c, rfl⟩ := hvar
  intro e he
  rcases List.mem_cons.1 he with rfl | he
  · exact hv
  · exact hlive e he

theorem live_of_pendingObjective {e : Expression α} {p : Program α} {scale : α}
    {pending : List (VariableId × α)} (hp : e.pendingObjective p scale = .ok pending) :
    ∀ t ∈ pending, t.1 ∈ p.vars.handles := by
  have hfold : ∀ (summands : List (Summand α)) (start : List (VariableId × α)),
      summands.foldlM (pend p scale) start = .ok pending →
      (∀ t ∈ start, t.1 ∈ p.vars.handles) → ∀ t ∈ pending, t.1 ∈ p.vars.handles := by
    intro summands
    induction summands with
    | nil =>
        intro start hstart hlive
        cases hstart
        exact hlive
    | cons t summands ih =>
        intro start hstart hlive
        rw [List.foldlM_cons] at hstart
        cases hstep : pend p scale start t with
        | error cause =>
            rw [hstep] at hstart
            cases hstart
        | ok next =>
            rw [hstep] at hstart
            exact ih next hstart (live_of_pend hstep hlive)
  exact hfold e.summands [] hp fun t ht => absurd ht List.not_mem_nil

theorem run_addToObjective (e : Expression α) (scale : α) (p : Program α) :
    (e.addToObjective scale).run p =
      if p.session.isSome then .error (.refused .checkedOut) p
      else match e.pendingObjective p scale with
        | .error cause => .error (.refused cause) p
        | .ok pending => .ok ⟨⟩ { p with
            vars := p.vars.adjustAll
              (pending.reverse.map fun t => (t.1, ({ · with objective := t.2 }))) } := by
  rw [addToObjective, ProgramM.run_requireIdle_then]
  split
  · rfl
  · rename_i hidle
    cases hp : e.pendingObjective p scale with
    | error cause => simp only [ProgramM.run_bind, ProgramM.run_ask, hp]
    | ok pending =>
        simp only [ProgramM.run_bind, ProgramM.run_ask, hp]
        refine ProgramM.run_forM_setObjectiveCoefficient (by simpa using hidle) ?_
        intro t ht
        exact live_of_pendingObjective hp t (List.mem_reverse.1 ht)

end Expression

end Socp
