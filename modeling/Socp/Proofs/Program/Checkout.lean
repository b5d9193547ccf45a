import Mathlib.Algebra.Ring.Int.Defs
import Socp.Proofs.Program.Reachable

/-!
A check-out lends a faithful picture of the graph. The indices number the live constraints and the
live variables without a gap, and at the indices of an entity the arrays hold what the graph holds
for it.
-/

namespace Socp

variable {α : Type}

/-! ### Indices -/

/-- An index gives the entities with a property the numbers below `n`, one each. -/
structure Numbers {ι : Type} (live : ι → Prop) (index : ι → Except ProgramError Nat) (n : Nat) :
    Prop where
  index_lt : ∀ i, live i → ∃ r < n, index i = .ok r
  live_of_index : ∀ i r, index i = .ok r → live i
  existsUnique : ∀ r < n, ∃! i, index i = .ok r

/-- The positions in a list without repetitions are such an index. -/
theorem numbers_of_getElem? {ι : Type} {live : ι → Prop} {index : ι → Except ProgramError Nat}
    {l : List ι} (hlive : ∀ i, i ∈ l ↔ live i)
    (hindex : ∀ i r, index i = .ok r ↔ l[r]? = some i) : Numbers live index l.length where
  index_lt i hi := by
    obtain ⟨r, hr⟩ := List.mem_iff_getElem?.1 ((hlive i).2 hi)
    exact ⟨r, (List.getElem?_eq_some_iff.1 hr).1, (hindex i r).2 hr⟩
  live_of_index i r hr := (hlive i).1 (List.mem_of_getElem? ((hindex i r).1 hr))
  existsUnique r hr := by
    refine ⟨l[r], (hindex _ r).2 (List.getElem?_eq_getElem hr), ?_⟩
    intro i hi
    have hget := (hindex i r).1 hi
    rw [List.getElem?_eq_getElem hr] at hget
    exact (Option.some.inj hget).symm

namespace Program

theorem lookup_eq_ok_iff {β : Type} {found : Except ProgramError β} {k : Option Nat}
    {e : ProgramError} {r : Nat} :
    (do
      let _ ← found
      match k with
      | some r => return r
      | none => throw e) = .ok r ↔ (∃ x, found = .ok x) ∧ k = some r := by
  cases found with
  | error cause => simp [bind, Except.bind]
  | ok x => cases k <;> simp [bind, Except.bind, pure, Except.pure, throw, throwThe,
      MonadExceptOf.throw]

namespace Coherent

variable {p : Program α} {s : Session α}

theorem rowOf_eq_ok_iff (h : p.Coherent) (hs : p.session = some s) {con : ConstraintId}
    {r : Nat} : p.rowOf con = .ok r ↔ p.rowOrder[r]? = some con := by
  -- the row order of a session is the one the program has still
  have hrow : p.rowOf con = .ok r ↔
      (∃ c, p.constraints.find con = .ok c) ∧ p.rowOrder.idxOf? con = some r := by
    rw [← (h.session_order s hs).2, rowOf, activeSession, hs]
    exact lookup_eq_ok_iff
  have hnodup : p.rowOrder.Nodup := p.constraints.handles_nodup
  rw [hrow, idxOf?_eq_some_iff_getElem? hnodup]
  refine and_iff_right_of_imp ?_
  intro hr
  exact Store.mem_handles_iff.1 (List.mem_of_getElem? hr)

theorem columnOf_eq_ok_iff (h : p.Coherent) (hs : p.session = some s) {v : VariableId}
    {j : Nat} : p.columnOf v = .ok j ↔ p.columnOrder[j]? = some v := by
  have hcolumn : p.columnOf v = .ok j ↔
      (∃ x, p.vars.find v = .ok x) ∧ p.columnOrder.idxOf? v = some j := by
    rw [← (h.session_order s hs).1, columnOf, activeSession, hs]
    exact lookup_eq_ok_iff
  rw [hcolumn, idxOf?_eq_some_iff_getElem? h.columnOrder_nodup]
  refine and_iff_right_of_imp ?_
  intro hj
  exact h.mem_columnOrder_iff.1 (List.mem_of_getElem? hj)

/-- Live variables are ordered as their columns are. -/
theorem columnOf_lt_iff (h : p.Coherent) (hs : p.session = some s) {u v : VariableId} {i j : Nat}
    (hi : p.columnOf u = .ok i) (hj : p.columnOf v = .ok j) : i < j ↔ u < v := by
  rw [h.columnOf_eq_ok_iff hs, h.columnOrder_eq] at hi hj
  have hlt : ∀ {a b : Nat} {w z : VariableId}, p.vars.handles[a]? = some w →
      p.vars.handles[b]? = some z → a < b → w < z := by
    intro a b w z ha hb hab
    obtain ⟨ha', rfl⟩ := List.getElem?_eq_some_iff.1 ha
    obtain ⟨hb', rfl⟩ := List.getElem?_eq_some_iff.1 hb
    exact List.pairwise_iff_getElem.1 p.vars.handles_sorted a b ha' hb' hab
  refine ⟨hlt hi hj, fun huv => ?_⟩
  rcases Nat.lt_trichotomy i j with hij | rfl | hji
  · exact hij
  · rw [hi] at hj
    cases hj
    exact absurd huv (Handle.lt_irrefl u)
  · exact absurd (Handle.lt_trans huv (hlt hj hi hji)) (Handle.lt_irrefl u)

end Coherent

/-! ### The picture of the graph -/

/-- The matrices `M` that `q` has lent show the graph of `p`. -/
structure Exports (p q : Program α) (M : Matrices α) : Prop where
  lent : q.lentMatrices = .ok M
  rows_eq : M.A.rows = p.constraintCount
  cols_eq : M.A.cols = p.variableCount
  wellFormed : M.A.WellFormed
  nnz_eq : M.A.nnz? = some (p.constraints.toList.map fun e => e.2.terms.size).sum
  /-- A coefficient that is not stored is not stored in the matrix either. -/
  entry : ∀ con c v x r j, p.findConstraint con = .ok c → p.findVariable v = .ok x →
    q.rowOf con = .ok r → q.columnOf v = .ok j → M.A.entry? r j = some (c.coefficient v)
  row : ∀ con c r, p.findConstraint con = .ok c → q.rowOf con = .ok r →
    M.b[r]? = some c.rhs ∧ M.w[r]? = some c.dual
  column : ∀ v x j, p.findVariable v = .ok x → q.columnOf v = .ok j →
    M.c[j]? = some x.objective ∧ M.x[j]? = some x.primal ∧ M.s[j]? = some x.dual
  row_sizes : M.b.size = p.constraintCount ∧ M.w.size = p.constraintCount
  column_sizes : M.c.size = p.variableCount ∧ M.x.size = p.variableCount ∧
    M.s.size = p.variableCount
  rows_numbered : Numbers (fun con => ∃ c, p.findConstraint con = .ok c) q.rowOf p.constraintCount
  columns_numbered : Numbers (fun v => ∃ x, p.findVariable v = .ok x) q.columnOf p.variableCount
  /-- Rows follow the creation of the constraints. -/
  row_order : ∀ con r, q.rowOf con = .ok r ↔ p.constraints.handles[r]? = some con
  /-- Columns follow the creation of the cones, and the variables within each. -/
  column_order : ∀ v j,
    q.columnOf v = .ok j ↔ (p.cones.toList.flatMap fun e => e.2.vars)[j]? = some v

theorem Coherent.exports [Zero α] [BEq α] {p : Program α} (h : p.Coherent) :
    p.Exports p.lent p.exported := by
  have hrow {con : ConstraintId} {r : Nat} :
      p.lent.rowOf con = .ok r ↔ p.rowOrder[r]? = some con :=
    h.lent.rowOf_eq_ok_iff rfl
  have hcolumn {v : VariableId} {j : Nat} :
      p.lent.columnOf v = .ok j ↔ p.columnOrder[j]? = some v :=
    h.lent.columnOf_eq_ok_iff rfl
  have hvars {v : VariableId} {j : Nat} (hj : p.lent.columnOf v = .ok j) :
      p.vars.handles[j]? = some v := by
    rw [← h.columnOrder_eq]
    exact hcolumn.1 hj
  constructor
  case lent => rfl
  case rows_eq => exact p.rows_exported
  case cols_eq => exact h.cols_exported
  case wellFormed => exact h.wellFormed_exported
  case nnz_eq =>
    rw [h.nnz?_exported, Store.values, List.map_map]
    rfl
  case entry =>
    intro con c v x r j hcon _ hr hj
    exact h.entry?_exported hcon (hrow.1 hr) (hcolumn.1 hj)
  case row =>
    intro con c r hcon hr
    have hc := Store.getElem?_values_of_handles (hrow.1 hr) hcon
    simp [exported, hc]
  case column =>
    intro v x j hv hj
    have hx := Store.getElem?_values_of_handles (hvars hj) hv
    simp [exported, hx]
  case row_sizes => simp [exported, constraintCount]
  case column_sizes => simp [exported, variableCount]
  case rows_numbered =>
    have hlive (con : ConstraintId) :
        con ∈ p.rowOrder ↔ ∃ c, p.findConstraint con = .ok c := Store.mem_handles_iff
    have hnumbers := numbers_of_getElem? hlive fun con r => hrow
    rwa [rowOrder, Store.length_handles] at hnumbers
  case columns_numbered =>
    have hnumbers := numbers_of_getElem? (fun v => h.mem_columnOrder_iff) fun v j => hcolumn
    rwa [h.columnOrder_eq, Store.length_handles] at hnumbers
  case row_order =>
    intro con r
    exact hrow
  case column_order =>
    intro v j
    rw [← columnOrder_eq_flatMap]
    exact hcolumn

end Program

/-- Checking out a reachable idle program succeeds and exports its graph. -/
theorem Operation.checkOut_exports [Zero α] [Add α] [Mul α] [BEq α] (id : Nat)
    (settings : Settings α) (ops : List (Operation α))
    (hidle : (performAll (.empty id settings) ops).session = none) :
    ∃ q M, (ProgramM.checkOut : ProgramM α Unit).run (performAll (.empty id settings) ops) =
      .ok () q ∧ (performAll (.empty id settings) ops).Exports q M := by
  have h := coherent_of_empty id settings ops
  refine ⟨_, _, ?_, h.exports⟩
  rw [ProgramM.run_checkOut h, if_neg (by simp [hidle])]

/-- A term that is stored as zero, and variables that are gone. -/
theorem Operation.checkOut_exports_after_deletion :
    let p := performAll (.empty 0 ⟨true, 0, false⟩)
      ([.createRotated 3, .createOrthant, .createConstraint, .createConstraint,
        .addVariable ⟨0, 1, 0⟩ ⟨0, 3, 0⟩ 0, .addVariable ⟨0, 1, 0⟩ ⟨0, 0, 0⟩ 7,
        .deleteCone ⟨0, 0, 0⟩] : List (Operation Int))
    p.session = none ∧
      ∃ q M, (ProgramM.checkOut : ProgramM Int Unit).run p = .ok () q ∧ p.Exports q M := by
  intro p
  have hidle : p.session = none := by decide +kernel
  exact ⟨hidle, checkOut_exports 0 _ _ hidle⟩

end Socp
