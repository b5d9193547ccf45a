import Mathlib.Algebra.Field.Rat
import Mathlib.Algebra.Order.Field.Basic
import Mathlib.Algebra.Order.Ring.Int
import Mathlib.Algebra.Order.Ring.Rat
import Socp.Program.Residual
import Socp.Proofs.Program.Breakage
import Socp.Proofs.Sparse.Multiply

/-!
The graph and the lent matrices agree on residuals and on the objective. Both sides add up the same
products in the same order, since columns follow the creation of the variables as terms do, so the
agreement needs no law of arithmetic until the right-hand side is moved from one end of the sum to
the other.
-/

namespace Socp

variable {α : Type}

/-! ### Sums over terms -/

theorem foldl_add_neg [AddCommGroup α] (l : List α) (b : α) :
    l.foldl (· + ·) (-b) = l.foldl (· + ·) 0 - b := by
  rw [← add_zero (-b), List.foldl_assoc, neg_add_eq_sub]

namespace Program

def addTerms [Add α] [Mul α] (p : Program α) (c : Constraint α) (start : α) :
    Except ProgramError α :=
  c.terms.toList.foldlM (fun sum (v, a) => do return sum + a * (← p.vars.find v).primal) start

/-- `-b + ∑ a_j x_j`, summed in the order of the terms. -/
def rowResidual [Neg α] [Add α] [Mul α] (p : Program α) (con : ConstraintId) :
    Except ProgramError α := do
  let c ← p.constraints.find con
  p.addTerms c (-c.rhs)

/-- The products that a constraint adds up, by the live variables. -/
def termValues [Mul α] (p : Program α) (c : Constraint α) : List α :=
  p.vars.toList.filterMap fun e => (c.coefficient e.1).map (· * e.2.primal)

theorem Coherent.terms_eq {p : Program α} (h : p.Coherent) {con : ConstraintId} {c : Constraint α}
    (hcon : p.constraints.find con = .ok c) :
    c.terms.toList = p.vars.toList.filterMap fun e => (c.coefficient e.1).map (e.1, ·) := by
  refine Terms.toList_eq_of_sorted ?_ ?_
  · refine List.Pairwise.filterMap _ ?_ (List.pairwise_map.1 p.vars.handles_sorted)
    intro e e' hlt t ht t' ht'
    obtain ⟨a, -, rfl⟩ := Option.map_eq_some_iff.1 ht
    obtain ⟨a', -, rfl⟩ := Option.map_eq_some_iff.1 ht'
    exact hlt
  · intro v a
    rw [List.mem_filterMap]
    constructor
    · intro ha
      obtain ⟨x, hx⟩ := Store.mem_handles_iff.1 (h.terms_live hcon _ (Terms.get?_eq_some_iff.1 ha))
      refine ⟨(v, x), Store.mem_toList_iff.2 hx, ?_⟩
      exact Option.map_eq_some_iff.2 ⟨a, ha, rfl⟩
    · rintro ⟨e, -, ht⟩
      obtain ⟨b, hb, heq⟩ := Option.map_eq_some_iff.1 ht
      cases heq
      exact hb

theorem Coherent.addTerms_eq [Add α] [Mul α] {p : Program α} (h : p.Coherent) {con : ConstraintId}
    {c : Constraint α} (hcon : p.constraints.find con = .ok c) (start : α) :
    p.addTerms c start = .ok ((p.termValues c).foldl (· + ·) start) := by
  rw [addTerms, h.terms_eq hcon, termValues]
  have hlive : ∀ e ∈ p.vars.toList, p.vars.find e.1 = .ok e.2 := fun e he =>
    Store.mem_toList_iff.1 he
  generalize p.vars.toList = l at hlive
  induction l generalizing start with
  | nil => rfl
  | cons e l ih =>
      have hrest := fun sum => ih sum fun e' he' => hlive e' (List.mem_cons_of_mem e he')
      rw [List.filterMap_cons, List.filterMap_cons]
      cases c.coefficient e.1 with
      | none => exact hrest start
      | some a =>
          dsimp only [Option.map_some]
          rw [List.foldlM_cons, hlive e List.mem_cons_self]
          exact hrest (start + a * e.2.primal)

theorem Coherent.constraintResidual_eq [Ring α] {p : Program α} (h : p.Coherent)
    (con : ConstraintId) : p.constraintResidual con = p.rowResidual con := by
  cases hcon : p.constraints.find con with
  | error cause =>
      rw [constraintResidual, rowResidual, hcon]
      rfl
  | ok c =>
      have hzero : p.constraintResidual con = p.addTerms c 0 >>= fun lhs => pure (lhs - c.rhs) := by
        rw [constraintResidual, hcon]
        rfl
      have hneg : p.rowResidual con = p.addTerms c (-c.rhs) := by
        rw [rowResidual, hcon]
        rfl
      rw [hzero, hneg, h.addTerms_eq hcon, h.addTerms_eq hcon, foldl_add_neg]
      rfl

/-! ### The residual of the lent matrices -/

theorem additionsAt_products [Mul α] (p : Program α) {r : Nat} {c : Constraint α}
    (hr : p.constraints.values[r]? = some c) :
    CscMatrix.additionsAt (CscMatrix.products (· * ·) (p.vars.handles.map p.columnEntries)
      (p.vars.values.map (·.primal))) r = p.termValues c := by
  rw [CscMatrix.products, Store.handles, Store.values, List.map_map, List.map_map, List.zip_map',
    List.flatMap_map, CscMatrix.additionsAt_flatMap, termValues, List.filterMap_eq_flatMap_toList]
  congr 1
  funext e
  dsimp only [Function.comp_apply]
  rw [CscMatrix.additionsAt_map (· * e.2.primal),
    CscMatrix.additionsAt_eq_lookup (p.nodup_keys_columnEntries e.1), lookup_columnEntries, hr,
    Option.bind_some]
  cases c.coefficient e.1 <;> rfl

section

variable [Zero α] [One α] [Neg α] [Add α] [Mul α] [BEq α] [UnitsApart α]

/-- The residual of the arrays of a coherent program adds, for each constraint, its terms to the
negated right-hand side. -/
theorem Coherent.residual?_exported {p : Program α} (h : p.Coherent) :
    p.exported.residual? = some (p.constraints.values.map fun c =>
      (p.termValues c).foldl (· + ·) (-c.rhs)).toArray := by
  have hx : p.exported.x.size = (p.columnOrder.map p.columnEntries).length := by
    rw [List.length_map, h.columnOrder_eq, Store.length_handles]
    simp [exported]
  have hb : p.exported.b.size = p.constraintCount := by
    simp [exported, constraintCount]
  have hrows : ∀ column ∈ p.columnOrder.map p.columnEntries, ∀ t ∈ column,
      t.1 < p.constraintCount := by
    intro column hcolumn t ht
    obtain ⟨v, -, rfl⟩ := List.mem_map.1 hcolumn
    exact lt_of_mem_columnEntries ht
  rw [Matrices.residual?, h.exported_A, CscMatrix.gemv?_ofColumns hx hb hrows, h.columnOrder_eq]
  congr 1
  apply Array.ext_getElem?
  intro r
  rw [Array.getElem?_mapIdx, exported, List.getElem?_toArray, List.getElem?_toArray,
    List.getElem?_map, List.getElem?_map]
  cases hr : p.constraints.values[r]? with
  | none => rfl
  | some c =>
      simp only [Option.map_some]
      rw [p.additionsAt_products hr]

end

/-! ### Taking the matrices back -/

/-- The objective of the arrays of a program is the one of its graph. -/
theorem dot?_exported [Zero α] [Add α] [Mul α] (p : Program α) :
    Dense.dot? p.exported.c.toList p.exported.x.toList = some p.objectiveValue :=
  p.dot?_objectives

variable [Zero α] [Add α] [Mul α] [BEq α]

/-- Whatever is done after the check-out that left `q`, short of taking the matrices back: if their
vectors fit `p` then, a check-in succeeds, and `P` holds of the matrices that came back and of the
program with their values stored. -/
def OnReturn (p q : Program α) (P : Matrices α → Program α → Prop) : Prop :=
  ∀ later N, (∀ e ∈ Operation.trace q later, e.isReturn = false) →
    (Operation.performAll q later).lentMatrices = .ok N → N.Fits p →
      ∃ r, (ProgramM.checkIn : ProgramM α Unit).run (Operation.performAll q later) = .ok () r ∧
        P N r

theorem Coherent.onReturn {p : Program α} (h : p.Coherent) : p.OnReturn p.lent fun N r =>
    r.Coherent ∧ r.exported = { p.exported with x := N.x, s := N.s, w := N.w } ∧
      r.constraints.handles = p.constraints.handles := by
  intro later N hkept hN hfits
  have hloan := Operation.sameLoan_performAll h.lent rfl hkept
  have hsame : SameGraph p (Operation.performAll p.lent later) := { hloan.toSameGraph with }
  have hq := Operation.coherent_performAll h.lent later
  clear hloan
  generalize Operation.performAll p.lent later = q at hN hsame hq
  obtain ⟨s, hs, rfl⟩ := exists_session_of_lentMatrices hN
  have hret : s.Returnable := (hq.returnable_iff hs).2 (hsame.fits_iff.2 hfits)
  refine ⟨q.returned s, ?_, hq.returned s, ?_, ?_⟩
  · rw [ProgramM.run_checkIn hq, hs]
    exact if_pos hret
  · rw [hq.exported_returned hs hret, hsame.exported_eq]
  · rw [← hsame.constraints_eq]
    exact Store.handles_adjustAll ..

/-! ### Residuals -/

section

variable [One α] [Neg α]

/-- At the row of each constraint of `p`, the residual of `M` is its `value`. -/
def ResidualIs (p q : Program α) (M : Matrices α) (value : ConstraintId → Except ProgramError α) :
    Prop :=
  ∃ R, M.residual? = some R ∧ R.size = p.constraintCount ∧
    ∀ con c, p.findConstraint con = .ok c →
      ∃ i d, q.rowOf con = .ok i ∧ R[i]? = some d ∧ value con = .ok d

/-- The residual of the matrices that a check-out lends is what `value` is in the graph. So is the
residual that a solver saw, which left `A` and `b` alone, once its values have been stored. -/
def ResidualsAgree (p : Program α) (value : Program α → ConstraintId → Except ProgramError α) :
    Prop :=
  ∃ q M, p.Lends q M ∧ p.ResidualIs q M (value p) ∧
    p.OnReturn q fun N r => N.A = M.A → N.b = M.b → p.ResidualIs q N (value r)

variable [UnitsApart α]

theorem Coherent.residualIs {p r : Program α} (h : p.Coherent) (hr : r.Coherent)
    (hhandles : r.constraints.handles = p.constraints.handles) :
    p.ResidualIs p.lent r.exported r.rowResidual := by
  refine ⟨_, hr.residual?_exported, ?_, ?_⟩
  · rw [List.size_toArray, List.length_map, Store.length_values, ← Store.length_handles, hhandles,
      Store.length_handles]
    rfl
  · intro con c hcon
    obtain ⟨i, hi⟩ := List.mem_iff_getElem?.1 (Store.mem_handles_iff.2 ⟨c, hcon⟩)
    have hi' : r.constraints.handles[i]? = some con := hhandles ▸ hi
    obtain ⟨c', hcon'⟩ := Store.mem_handles_iff.1 (List.mem_of_getElem? hi')
    have hsum : r.rowResidual con = .ok ((r.termValues c').foldl (· + ·) (-c'.rhs)) := by
      rw [rowResidual, hcon']
      exact hr.addTerms_eq hcon' (-c'.rhs)
    refine ⟨i, _, (h.lent.rowOf_eq_ok_iff rfl).2 hi, ?_, hsum⟩
    rw [List.getElem?_toArray, List.getElem?_map, Store.getElem?_values_of_handles hi' hcon']
    rfl

/-- A value that comes to the row residual in every coherent program agrees with what is lent. -/
theorem Coherent.residualsAgree {p : Program α} (h : p.Coherent) (hidle : p.session = none)
    {value : Program α → ConstraintId → Except ProgramError α}
    (hvalue : ∀ r : Program α, r.Coherent → value r = r.rowResidual) : p.ResidualsAgree value := by
  refine ⟨p.lent, p.exported, h.lends hidle, ?_, ?_⟩
  · rw [hvalue p h]
    exact h.residualIs h rfl
  · intro later N hkept hN hfits
    obtain ⟨r, hrun, hr, hexported, hhandles⟩ := h.onReturn later N hkept hN hfits
    refine ⟨r, hrun, fun hA hb => ?_⟩
    -- the solver saw the residual that a check-out would show now
    have hseen : N.residual? = r.exported.residual? := by
      rw [Matrices.residual?, Matrices.residual?, hexported, hA, hb]
    obtain ⟨R, hR, hsize, hrows⟩ := h.residualIs hr hhandles
    rw [hvalue r hr]
    exact ⟨R, hseen.trans hR, hsize, hrows⟩

end

/-! ### The objective -/

/-- Columns follow the creation of the variables, and the objective of the lent matrices is the one
of the graph, at the values that were lent and at any that come back. -/
structure ObjectivesAgree (p : Program α) : Prop where
  cones_increase : (p.cones.toList.map (·.1)).Pairwise (· < ·)
  /-- Cone by cone, the variables come in the order in which they are stored. -/
  order : (p.cones.toList.flatMap fun e => e.2.vars) = p.vars.toList.map (·.1)
  variables_increase : (p.vars.toList.map (·.1)).Pairwise (· < ·)
  live_iff : ∀ v, v ∈ p.vars.toList.map (·.1) ↔ ∃ x, p.findVariable v = .ok x
  columns : p.isCheckedOut → ∀ u v x y, p.findVariable u = .ok x → p.findVariable v = .ok y →
    ∃ i j, p.columnOf u = .ok i ∧ p.columnOf v = .ok j ∧ (i < j ↔ u < v)
  objective : p.isCheckedOut = false → ∃ q M, p.Lends q M ∧
    Dense.dot? M.c.toList M.x.toList = some p.objectiveValue ∧
      p.OnReturn q fun N r => Dense.dot? M.c.toList N.x.toList = some r.objectiveValue

theorem Coherent.objectivesAgree {p : Program α} (h : p.Coherent) : p.ObjectivesAgree where
  cones_increase := p.cones.handles_sorted
  order := by
    rw [← columnOrder_eq_flatMap, h.columnOrder_eq]
    rfl
  variables_increase := p.vars.handles_sorted
  live_iff v := Store.mem_handles_iff
  columns hlent u v x y hu hv := by
    obtain ⟨s, hs⟩ := Option.isSome_iff_exists.1 hlent
    obtain ⟨i, hi⟩ := List.mem_iff_getElem?.1 (h.mem_columnOrder_iff.2 ⟨x, hu⟩)
    obtain ⟨j, hj⟩ := List.mem_iff_getElem?.1 (h.mem_columnOrder_iff.2 ⟨y, hv⟩)
    rw [← h.columnOf_eq_ok_iff hs] at hi hj
    exact ⟨i, j, hi, hj, h.columnOf_lt_iff hs hi hj⟩
  objective hopen := by
    have hidle : p.session = none := by simpa [isCheckedOut] using hopen
    refine ⟨p.lent, p.exported, h.lends hidle, p.dot?_exported, ?_⟩
    intro later N hkept hN hfits
    obtain ⟨r, hrun, hr, hexported, -⟩ := h.onReturn later N hkept hN hfits
    refine ⟨r, hrun, ?_⟩
    have hafter := r.dot?_exported
    rwa [hexported] at hafter

end Program

namespace Operation

/-- The residual of the matrices that a reachable program lends is the one of its graph: in any
arithmetic, when the sum over the terms of a constraint starts from the negated right-hand side, and
over exact numbers, wherever it starts. -/
theorem performAll_residualsAgree :
    (∀ {α : Type} [Zero α] [One α] [Neg α] [Add α] [Mul α] [BEq α] [UnitsApart α] (id : Nat)
      (settings : Settings α) (ops : List (Operation α)),
      (performAll (.empty id settings) ops).session = none →
        (performAll (.empty id settings) ops).ResidualsAgree Program.rowResidual) ∧
    ∀ {K : Type} [Field K] [LinearOrder K] [IsStrictOrderedRing K] [BEq K] [LawfulBEq K] (id : Nat)
      (settings : Settings K) (ops : List (Operation K)),
      (performAll (.empty id settings) ops).session = none →
        (performAll (.empty id settings) ops).ResidualsAgree Program.constraintResidual := by
  constructor
  · intro α _ _ _ _ _ _ _ id settings ops hidle
    exact (coherent_of_empty id settings ops).residualsAgree hidle fun r _ => rfl
  · intro K _ _ _ _ _ id settings ops hidle
    exact (coherent_of_empty id settings ops).residualsAgree hidle fun r hr =>
      funext hr.constraintResidual_eq

/-- Terms that were set out of order, and columns that moved up after a deletion. -/
theorem performAll_residualsAgree_after_deletion :
    let history : List (Operation ℚ) := [.createOrthant, .createSecondOrder 2, .createOrthant,
      .createConstraint, .createConstraint, .addVariable ⟨0, 1, 0⟩ ⟨0, 3, 0⟩ 7,
      .addVariable ⟨0, 1, 0⟩ ⟨0, 1, 0⟩ (-2), .setConstrainedValue ⟨0, 1, 0⟩ 5,
      .setPrimalValue ⟨0, 3, 0⟩ (1 / 2), .deleteCone ⟨0, 0, 0⟩, .deleteConstraint ⟨0, 0, 0⟩]
    let p := performAll (.empty 0 ⟨true, 0, true⟩) history
    p.session = none ∧ p.ResidualsAgree Program.rowResidual ∧
      p.ResidualsAgree Program.constraintResidual := by
  intro history p
  have hidle : p.session = none := by decide +kernel
  exact ⟨hidle, performAll_residualsAgree.1 0 _ history hidle,
    performAll_residualsAgree.2 0 _ history hidle⟩

/-- Every reachable program has its variables and its objective in one order. -/
theorem performAll_objectivesAgree [Zero α] [Add α] [Mul α] [BEq α] (id : Nat)
    (settings : Settings α) (ops : List (Operation α)) :
    (performAll (.empty id settings) ops).ObjectivesAgree :=
  (coherent_of_empty id settings ops).objectivesAgree

end Operation

end Socp
