import Socp.Proofs.Program.Checkout

/-!
A check-in undoes a check-out. The values that came back are stored with the entities whose indices
they have, nothing else in the graph has changed, and lending the program again shows the same
matrices with the new values in them.
-/

namespace Socp

variable {α : Type}

namespace Session

variable {s : Session α}

/-! ### What comes back for whom -/

theorem keys_variableUpdates (h : s.Returnable) : s.variableUpdates.map (·.1) = s.columns := by
  rw [variableUpdates, List.map_map]
  refine List.map_fst_zip ?_
  simp [List.length_zip, h.1, h.2.1]

theorem keys_constraintUpdates (h : s.Returnable) : s.constraintUpdates.map (·.1) = s.rows := by
  rw [constraintUpdates, List.map_map]
  refine List.map_fst_zip ?_
  simp [h.2.2]

theorem map_snd_columns (h : s.Returnable) :
    (s.columns.zip (s.matrices.x.toList.zip s.matrices.s.toList)).map (·.2) =
      s.matrices.x.toList.zip s.matrices.s.toList := by
  refine List.map_snd_zip ?_
  simp [List.length_zip, h.1, h.2.1]

theorem primals_variableUpdates (h : s.Returnable) :
    (s.columns.zip (s.matrices.x.toList.zip s.matrices.s.toList)).map (·.2.1) =
      s.matrices.x.toList := by
  have hsplit := congrArg (List.map Prod.fst) (map_snd_columns h)
  rw [List.map_map, List.map_fst_zip (by simp [h.1, h.2.1])] at hsplit
  exact hsplit

theorem duals_variableUpdates (h : s.Returnable) :
    (s.columns.zip (s.matrices.x.toList.zip s.matrices.s.toList)).map (·.2.2) =
      s.matrices.s.toList := by
  have hsplit := congrArg (List.map Prod.snd) (map_snd_columns h)
  rw [List.map_map, List.map_snd_zip (by simp [h.1, h.2.1])] at hsplit
  exact hsplit

theorem duals_constraintUpdates (h : s.Returnable) :
    (s.rows.zip s.matrices.w.toList).map (·.2) = s.matrices.w.toList := by
  refine List.map_snd_zip ?_
  simp [h.2.2]

end Session

namespace Program

variable {p : Program α} {s : Session α}

theorem map_vars_returned {γ : Type} {view : Variable α → γ}
    (hview : ∀ x a d, view { x with primal := a, dual := d } = view x) :
    (p.returned s).vars.values.map view = p.vars.values.map view := by
  refine Store.map_values_adjustAll ?_
  intro t ht x
  obtain ⟨e, -, rfl⟩ := List.mem_map.1 ht
  exact hview x _ _

theorem map_constraints_returned {γ : Type} {view : Constraint α → γ}
    (hview : ∀ c w, view { c with dual := w } = view c) :
    (p.returned s).constraints.values.map view = p.constraints.values.map view := by
  refine Store.map_values_adjustAll ?_
  intro t ht c
  obtain ⟨e, -, rfl⟩ := List.mem_map.1 ht
  exact hview c _

namespace Coherent

theorem variableUpdates_handles (h : p.Coherent) (hs : p.session = some s)
    (hret : s.Returnable) : s.variableUpdates.map (·.1) = p.vars.handles := by
  rw [Session.keys_variableUpdates hret, (h.session_order s hs).1, h.columnOrder_eq]

theorem constraintUpdates_handles (h : p.Coherent) (hs : p.session = some s)
    (hret : s.Returnable) : s.constraintUpdates.map (·.1) = p.constraints.handles :=
  (Session.keys_constraintUpdates hret).trans (h.session_order s hs).2

theorem find_vars_returned (h : p.Coherent) (hs : p.session = some s) (hret : s.Returnable)
    {v : VariableId} {x : Variable α} {j : Nat} (hv : p.vars.find v = .ok x)
    (hj : s.columns[j]? = some v) :
    ∃ a d, s.matrices.x[j]? = some a ∧ s.matrices.s[j]? = some d ∧
      (p.returned s).vars.find v = .ok { x with primal := a, dual := d } := by
  have hlt := (List.getElem?_eq_some_iff.1 hj).1
  have hx : j < s.matrices.x.size := hret.1 ▸ hlt
  have hd : j < s.matrices.s.size := hret.2.1 ▸ hlt
  refine ⟨s.matrices.x[j], s.matrices.s[j], Array.getElem?_eq_getElem hx,
    Array.getElem?_eq_getElem hd, ?_⟩
  have hnodup : (s.variableUpdates.map (·.1)).Nodup :=
    h.variableUpdates_handles hs hret ▸ p.vars.handles_nodup
  have hmem : Session.variableUpdates.variableUpdate (v, s.matrices.x[j], s.matrices.s[j]) ∈
      s.variableUpdates := by
    apply List.mem_map_of_mem
    rw [List.mem_iff_getElem?]
    refine ⟨j, ?_⟩
    simp [List.getElem?_zip_eq_some, hj, hx, hd]
  have hfind := Store.find_adjustAll (s := p.vars) hnodup hmem
  rw [hv] at hfind
  exact hfind

theorem find_constraints_returned (h : p.Coherent) (hs : p.session = some s)
    (hret : s.Returnable) {con : ConstraintId} {c : Constraint α} {i : Nat}
    (hcon : p.constraints.find con = .ok c) (hi : s.rows[i]? = some con) :
    ∃ w, s.matrices.w[i]? = some w ∧
      (p.returned s).constraints.find con = .ok { c with dual := w } := by
  have hlt := (List.getElem?_eq_some_iff.1 hi).1
  have hw : i < s.matrices.w.size := hret.2.2 ▸ hlt
  refine ⟨s.matrices.w[i], Array.getElem?_eq_getElem hw, ?_⟩
  have hnodup : (s.constraintUpdates.map (·.1)).Nodup :=
    h.constraintUpdates_handles hs hret ▸ p.constraints.handles_nodup
  have hmem : Session.constraintUpdates.constraintUpdate (con, s.matrices.w[i]) ∈
      s.constraintUpdates := by
    apply List.mem_map_of_mem
    rw [List.mem_iff_getElem?]
    refine ⟨i, ?_⟩
    simp [List.getElem?_zip_eq_some, hi, hw]
  have hfind := Store.find_adjustAll (s := p.constraints) hnodup hmem
  rw [hcon] at hfind
  exact hfind

/-- Lent again, the program shows what it showed before, and the values that came back. -/
theorem exported_returned (h : p.Coherent) (hs : p.session = some s) (hret : s.Returnable) :
    (p.returned s).exported =
      { p.exported with x := s.matrices.x, s := s.matrices.s, w := s.matrices.w } := by
  have hvars := h.variableUpdates_handles hs hret
  have hcons := h.constraintUpdates_handles hs hret
  have hx : (p.returned s).vars.values.map (·.primal) = s.matrices.x.toList := by
    rw [← Session.primals_variableUpdates hret]
    exact Store.map_values_adjustAll_of_set hvars fun e x => rfl
  have hd : (p.returned s).vars.values.map (·.dual) = s.matrices.s.toList := by
    rw [← Session.duals_variableUpdates hret]
    exact Store.map_values_adjustAll_of_set hvars fun e x => rfl
  have hw : (p.returned s).constraints.values.map (·.dual) = s.matrices.w.toList := by
    rw [← Session.duals_constraintUpdates hret]
    exact Store.map_values_adjustAll_of_set hcons fun e c => rfl
  have hrows : (p.returned s).termRows = p.termRows := map_constraints_returned fun c w => rfl
  have hb : (p.returned s).constraints.values.map (·.rhs) = p.constraints.values.map (·.rhs) :=
    map_constraints_returned fun c w => rfl
  have hc : (p.returned s).vars.values.map (·.objective) = p.vars.values.map (·.objective) :=
    map_vars_returned fun x a d => rfl
  rw [exported, hrows, hb, hc, hx, hd, hw]
  rfl

end Coherent

end Program

/-! ### The whole cycle -/

namespace Program

/-- After the arrays `N` have come back, `r` is the graph of `p` with their values in it, and the
indices of `q` say which value is whose. -/
structure Restores (p q : Program α) (N : Matrices α) (r : Program α) : Prop where
  idle : r.session = none
  live_variable : ∀ v x, p.findVariable v = .ok x → ∃ j a d, q.columnOf v = .ok j ∧
    N.x[j]? = some a ∧ N.s[j]? = some d ∧
      r.findVariable v = .ok { x with primal := a, dual := d }
  live_constraint : ∀ con c, p.findConstraint con = .ok c → ∃ i w, q.rowOf con = .ok i ∧
    N.w[i]? = some w ∧ r.findConstraint con = .ok { c with dual := w }
  refused_variable : ∀ v cause, p.findVariable v = .error cause ↔ r.findVariable v = .error cause
  refused_constraint : ∀ con cause,
    p.findConstraint con = .error cause ↔ r.findConstraint con = .error cause
  handles_eq : r.vars.handles = p.vars.handles ∧ r.constraints.handles = p.constraints.handles
  counts_eq : r.variableCount = p.variableCount ∧ r.constraintCount = p.constraintCount
  cones_eq : r.cones = p.cones
  kindCounts_eq : r.kindCounts = p.kindCounts
  settings_eq : r.settings = p.settings

namespace Coherent

variable [Zero α] [BEq α] {p : Program α}

theorem restores (h : p.Coherent) {N : Matrices α} (hret : (p.loan.withMatrices N).Returnable) :
    Restores p p.lent N ((p.lentAs N).returned (p.loan.withMatrices N)) := by
  have hq := h.lentAs N
  constructor
  case idle => rfl
  case live_variable =>
    intro v x hv
    obtain ⟨j, hj⟩ := List.mem_iff_getElem?.1 (h.mem_columnOrder_iff.2 ⟨x, hv⟩)
    obtain ⟨a, d, ha, hd, hfind⟩ := hq.find_vars_returned rfl hret hv hj
    exact ⟨j, a, d, (h.lent.columnOf_eq_ok_iff rfl).2 hj, ha, hd, hfind⟩
  case live_constraint =>
    intro con c hcon
    obtain ⟨i, hi⟩ := List.mem_iff_getElem?.1 (Store.mem_handles_iff.2 ⟨c, hcon⟩)
    obtain ⟨w, hw, hfind⟩ := hq.find_constraints_returned rfl hret hcon hi
    exact ⟨i, w, (h.lent.rowOf_eq_ok_iff rfl).2 hi, hw, hfind⟩
  case refused_variable =>
    intro v cause
    exact Store.find_adjustAll_error.symm
  case refused_constraint =>
    intro con cause
    exact Store.find_adjustAll_error.symm
  case handles_eq => exact ⟨Store.handles_adjustAll .., Store.handles_adjustAll ..⟩
  case counts_eq => exact ⟨Store.size_adjustAll .., Store.size_adjustAll ..⟩
  case cones_eq => rfl
  case kindCounts_eq => rfl
  case settings_eq => rfl

end Coherent

/-- What follows a look-up depends on no more of it than the refusal. -/
theorem bind_eq_bind_of_refused {β γ δ : Type} {found : Except ProgramError β}
    {found' : Except ProgramError γ}
    (hrefused : ∀ cause, found = .error cause ↔ found' = .error cause)
    (rest : Except ProgramError δ) :
    (found' >>= fun _ => rest) = (found >>= fun _ => rest) := by
  cases hf : found with
  | error cause =>
      rw [(hrefused cause).1 hf]
      rfl
  | ok b =>
      cases hf' : found' with
      | error cause =>
          rw [(hrefused cause).2 hf'] at hf
          cases hf
      | ok c => rfl

theorem columnOf_lent [Zero α] [BEq α] (p : Program α) (v : VariableId) :
    p.lent.columnOf v = p.findVariable v >>= fun _ =>
      match p.columnOrder.idxOf? v with
      | some j => .ok j
      | none => .error (.staleHandle .var) :=
  rfl

theorem rowOf_lent [Zero α] [BEq α] (p : Program α) (con : ConstraintId) :
    p.lent.rowOf con = p.findConstraint con >>= fun _ =>
      match p.rowOrder.idxOf? con with
      | some i => .ok i
      | none => .error (.staleHandle .constraint) :=
  rfl

end Program

namespace Operation

variable [Zero α] [Add α] [Mul α] [BEq α]

theorem performAll_editLent {q : Program α} {s : Session α} (hs : q.session = some s)
    (edits : List (Matrices α → Matrices α)) :
    performAll q (edits.map .editLent) =
      { q with session := some (s.withMatrices (edits.foldl (fun M f => f M) s.matrices)) } := by
  induction edits generalizing q s with
  | nil =>
      show q = { q with session := some s }
      rw [← hs]
  | cons f edits ih =>
      have hrun : (perform (.editLent f)).run q =
          .ok .done { q with session := some (s.withMatrices (f s.matrices)) } := by
        rw [perform, perform.done, ProgramM.run_bind, ProgramM.run_editLent, hs]
        rfl
      rw [List.map_cons, performAll, hrun]
      exact ih (s := s.withMatrices (f s.matrices)) rfl

end Operation

namespace Program.Coherent

variable [Zero α] [BEq α] {p : Program α}

theorem checkIn_lentAs (h : p.Coherent) {N : Matrices α} (hx : N.x.size = p.variableCount)
    (hs : N.s.size = p.variableCount) (hw : N.w.size = p.constraintCount) :
    ∃ r, (ProgramM.checkIn : ProgramM α Unit).run (p.lentAs N) = .ok () r ∧
      p.Restores p.lent N r ∧
      ∃ q, (ProgramM.checkOut : ProgramM α Unit).run r = .ok () q ∧
        (∀ v, q.columnOf v = p.lent.columnOf v) ∧ (∀ con, q.rowOf con = p.lent.rowOf con) ∧
        q.lentMatrices = .ok { p.exported with x := N.x, s := N.s, w := N.w } := by
  -- whatever else has become of them, the arrays come back with their lengths
  have hret : (p.loan.withMatrices N).Returnable := by
    have hcolumns : p.columnOrder.length = p.variableCount := by
      rw [h.columnOrder_eq, Store.length_handles]
      rfl
    have hrows : p.rowOrder.length = p.constraintCount := p.constraints.length_handles
    exact ⟨hx.trans hcolumns.symm, hs.trans hcolumns.symm, hw.trans hrows.symm⟩
  have hrestores := h.restores hret
  have hq := h.lentAs N
  refine ⟨_, ?_, hrestores, _, ProgramM.run_checkOut (hq.returned _), ?_, ?_, ?_⟩
  · rw [ProgramM.run_checkIn hq]
    exact if_pos hret
  · intro v
    rw [columnOf_lent, columnOf_lent]
    exact bind_eq_bind_of_refused (hrestores.refused_variable v) _
  · -- rows are numbered by the live constraints, which are the same as before
    intro con
    rw [rowOf_lent, rowOf_lent, rowOrder, hrestores.handles_eq.2]
    exact bind_eq_bind_of_refused (hrestores.refused_constraint con) _
  · show Except.ok (Program.exported _) = _
    rw [hq.exported_returned rfl hret]
    rfl

end Program.Coherent

/-- Taking back what a check-out of a reachable idle program has lent, whatever has been done to it
apart from other lengths of the values, changes the values and nothing else. -/
theorem Operation.checkIn_restores [Zero α] [Add α] [Mul α] [BEq α] (id : Nat)
    (settings : Settings α) (ops : List (Operation α)) (edits : List (Matrices α → Matrices α))
    (hidle : (performAll (.empty id settings) ops).session = none) :
    let p := performAll (.empty id settings) ops
    ∃ q M, (ProgramM.checkOut : ProgramM α Unit).run p = .ok () q ∧ q.lentMatrices = .ok M ∧
      let N := edits.foldl (fun M f => f M) M
      let e := performAll q (edits.map .editLent)
      e.lentMatrices = .ok N ∧
        (N.x.size = p.variableCount → N.s.size = p.variableCount →
          N.w.size = p.constraintCount →
          ∃ r, (ProgramM.checkIn : ProgramM α Unit).run e = .ok () r ∧ p.Restores q N r ∧
            ∃ q', (ProgramM.checkOut : ProgramM α Unit).run r = .ok () q' ∧
              (∀ v, q'.columnOf v = q.columnOf v) ∧ (∀ con, q'.rowOf con = q.rowOf con) ∧
              q'.lentMatrices = .ok { M with x := N.x, s := N.s, w := N.w }) := by
  have h := coherent_of_empty id settings ops
  generalize performAll (.empty id settings) ops = p at h hidle
  have hrun : (ProgramM.checkOut : ProgramM α Unit).run p = .ok () p.lent := by
    rw [ProgramM.run_checkOut h, if_neg (by simp [hidle])]
  have hedit := performAll_editLent (q := p.lent) (s := p.loan) rfl edits
  refine ⟨p.lent, p.exported, hrun, rfl, ?_⟩
  intro N e
  have he : e = p.lentAs N := hedit
  rw [he]
  exact ⟨rfl, fun hx hs hw => h.checkIn_lentAs hx hs hw⟩

/-- A borrower that ruins `A`, `b` and `c` and brings values back. -/
theorem Operation.checkIn_restores_after_ruin :
    let p := performAll (.empty 0 ⟨true, 0, true⟩)
      ([.createOrthant, .createSecondOrder 2, .createConstraint,
        .addVariable ⟨0, 0, 0⟩ ⟨0, 1, 0⟩ 7, .deleteCone ⟨0, 0, 0⟩] : List (Operation Int))
    let ruin : Matrices Int → Matrices Int := fun _ =>
      ⟨⟨5, 1, #[3], #[9], #[]⟩, #[], #[4], #[1, 2], #[3, 4], #[5]⟩
    p.session = none ∧
      ∃ q M, (ProgramM.checkOut : ProgramM Int Unit).run p = .ok () q ∧ q.lentMatrices = .ok M ∧
        ∃ r, (ProgramM.checkIn : ProgramM Int Unit).run (performAll q [.editLent ruin]) =
          .ok () r ∧ p.Restores q (ruin M) r ∧
          ∃ q', (ProgramM.checkOut : ProgramM Int Unit).run r = .ok () q' ∧
            q'.lentMatrices = .ok { M with x := #[1, 2], s := #[3, 4], w := #[5] } := by
  intro p ruin
  have hidle : p.session = none := by decide +kernel
  have hvars : p.variableCount = 2 := by decide +kernel
  have hcons : p.constraintCount = 1 := by decide +kernel
  obtain ⟨q, M, hout, hM, -, hback⟩ := checkIn_restores 0 _ _ [ruin] hidle
  obtain ⟨r, hin, hrestores, q', hout', -, -, hM'⟩ := hback hvars.symm hvars.symm hcons.symm
  exact ⟨hidle, q, M, hout, hM, r, hin, hrestores, q', hout', hM'⟩

end Socp
