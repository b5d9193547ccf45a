import Socp.Proofs.Program.Coherent
import Socp.Proofs.Sparse.Assembly
import Socp.Proofs.Sparse.Lookup

/-!
The matrices of a coherent program. They are built without a failure and hold, at the row of a
constraint and the column of a variable, what the graph holds for the two.
-/

namespace Socp

namespace Program

variable {α : Type}

/-- The terms of a constraint with columns in place of variables. -/
def termRow (p : Program α) (con : Constraint α) : List (Nat × α) :=
  con.terms.toList.map fun t => (p.columnOrder.idxOf t.1, t.2)

def termRows (p : Program α) : List (List (Nat × α)) := p.constraints.values.map p.termRow

/-- The arrays that the live entities make up. -/
def exported (p : Program α) : Matrices α where
  A := .ofColumns p.termRows.length
    (CscMatrix.columnsOf p.columnOrder.length (CscMatrix.entriesOf p.termRows))
  b := (p.constraints.values.map (·.rhs)).toArray
  c := (p.vars.values.map (·.objective)).toArray
  x := (p.vars.values.map (·.primal)).toArray
  s := (p.vars.values.map (·.dual)).toArray
  w := (p.constraints.values.map (·.dual)).toArray

/-- The session over these arrays. -/
def loan (p : Program α) : Session α := ⟨p.exported, p.columnOrder, p.rowOrder⟩

theorem rows_exported (p : Program α) : p.exported.A.rows = p.constraintCount := by
  show p.termRows.length = _
  rw [termRows, List.length_map, Store.length_values]
  rfl

namespace Coherent

variable {p : Program α}

theorem columnOrder_nodup (h : p.Coherent) : p.columnOrder.Nodup :=
  h.columnOrder_eq ▸ p.vars.handles_nodup

theorem mem_columnOrder_iff (h : p.Coherent) {v : VariableId} :
    v ∈ p.columnOrder ↔ ∃ x, p.vars.find v = .ok x := by
  rw [h.columnOrder_eq, Store.mem_handles_iff]

theorem mem_columnOrder_of_term (h : p.Coherent) {con : Constraint α}
    (hcon : con ∈ p.constraints.values) {t : VariableId × α} (ht : t ∈ con.terms.toList) :
    t.1 ∈ p.columnOrder := by
  obtain ⟨id, hid⟩ := Store.mem_values_iff.1 hcon
  rw [h.columnOrder_eq]
  exact h.terms_live hid t ht

theorem rowEntries?_eq (h : p.Coherent) {con : Constraint α} (hcon : con ∈ p.constraints.values) :
    rowEntries? p.columnOrder con = some (p.termRow con) := by
  refine mapM_eq_pure ?_
  intro t ht
  obtain ⟨v, a⟩ := t
  show (p.columnOrder.idxOf? v).map (·, a) = _
  rw [idxOf?_eq_some_idxOf (h.mem_columnOrder_of_term hcon ht)]
  rfl

theorem termRow_nodup (h : p.Coherent) {con : Constraint α} (hcon : con ∈ p.constraints.values) :
    ((p.termRow con).map (·.1)).Nodup := by
  have hmap : (p.termRow con).map (·.1) =
      (con.terms.toList.map (·.1)).map p.columnOrder.idxOf := by
    rw [termRow, List.map_map, List.map_map]
    rfl
  rw [hmap]
  -- different variables have different columns, as long as they are live
  refine List.Nodup.map_on ?_ con.terms.keys_nodup
  intro v hv w _ heq
  obtain ⟨t, ht, rfl⟩ := List.mem_map.1 hv
  exact (List.idxOf_inj (h.mem_columnOrder_of_term hcon ht)).1 heq

theorem termRows_nodup (h : p.Coherent) : ∀ row ∈ p.termRows, (row.map (·.1)).Nodup := by
  intro row hrow
  obtain ⟨con, hcon, rfl⟩ := List.mem_map.1 hrow
  exact h.termRow_nodup hcon

theorem termRows_lt (h : p.Coherent) :
    ∀ row ∈ p.termRows, ∀ t ∈ row, t.1 < p.columnOrder.length := by
  intro row hrow t ht
  obtain ⟨con, hcon, rfl⟩ := List.mem_map.1 hrow
  obtain ⟨s, hs, rfl⟩ := List.mem_map.1 ht
  exact List.idxOf_lt_length_of_mem (h.mem_columnOrder_of_term hcon hs)

theorem lookup_termRow (h : p.Coherent) {con : Constraint α} (hcon : con ∈ p.constraints.values)
    (v : VariableId) :
    (p.termRow con).lookup (p.columnOrder.idxOf v) = con.coefficient v := by
  ext a
  rw [lookup_eq_some_iff_mem (h.termRow_nodup hcon), Constraint.coefficient_eq_some_iff, termRow,
    List.mem_map]
  constructor
  · rintro ⟨⟨w, b⟩, ht, heq⟩
    obtain ⟨hidx, rfl⟩ := Prod.mk.inj heq
    have hwv := (List.idxOf_inj (h.mem_columnOrder_of_term hcon ht)).1 hidx
    exact hwv ▸ ht
  · intro ht
    exact ⟨(v, a), ht, rfl⟩

/-! ### The arrays -/

theorem cols_exported (h : p.Coherent) : p.exported.A.cols = p.variableCount := by
  show (CscMatrix.columnsOf _ _).length = _
  rw [CscMatrix.length_columnsOf, h.columnOrder_eq, Store.length_handles]
  rfl

theorem wellFormed_exported (h : p.Coherent) : p.exported.A.WellFormed :=
  CscMatrix.wellFormed_columnsOf h.termRows_nodup

/-- Every stored term becomes one stored entry. -/
theorem nnz?_exported (h : p.Coherent) :
    p.exported.A.nnz? = some (p.constraints.values.map fun con => con.terms.size).sum := by
  have hcols : ∀ e ∈ CscMatrix.entriesOf p.termRows, e.col < p.columnOrder.length :=
    CscMatrix.col_lt_of_mem_entriesOf h.termRows_lt
  have hlen : p.termRows.flatten.length =
      (p.constraints.values.map fun con => con.terms.size).sum := by
    rw [List.length_flatten, termRows, List.map_map]
    congr 2
    ext con
    exact List.length_map _
  rw [exported, CscMatrix.nnz?_ofColumns, CscMatrix.length_flatten_columnsOf hcols,
    CscMatrix.length_entriesOf, hlen]

/-- The entry at the place of a constraint and a variable is the coefficient. -/
theorem entry?_exported (h : p.Coherent) {con : ConstraintId} {c : Constraint α} {v : VariableId}
    {r j : Nat} (hcon : p.constraints.find con = .ok c) (hr : p.rowOrder[r]? = some con)
    (hj : p.columnOrder[j]? = some v) : p.exported.A.entry? r j = some (c.coefficient v) := by
  have hc : p.constraints.values[r]? = some c := Store.getElem?_values_of_handles hr hcon
  have hrow : p.termRows[r]? = some (p.termRow c) := by
    rw [termRows, List.getElem?_map, hc, Option.map_some]
  obtain ⟨hjlt, hjv⟩ := List.getElem?_eq_some_iff.1 hj
  have hj' : j < (CscMatrix.columnsOf p.columnOrder.length
      (CscMatrix.entriesOf p.termRows)).length := by
    rwa [CscMatrix.length_columnsOf]
  have hcolumn : p.exported.A.column? j =
      some (CscMatrix.columnOf (CscMatrix.entriesOf p.termRows) j) := by
    rw [exported, CscMatrix.column?_ofColumns hj', CscMatrix.getElem_columnsOf]
  have hidx : j = p.columnOrder.idxOf v := by
    rw [← hjv, h.columnOrder_nodup.idxOf_getElem]
  calc
    p.exported.A.entry? r j =
        some ((CscMatrix.columnOf (CscMatrix.entriesOf p.termRows) j).lookup r) :=
      CscMatrix.entry?_eq_lookup (List.getElem?_eq_some_iff.1 hrow).1 hj' hcolumn
        (CscMatrix.pairwise_columnOf_entriesOf h.termRows_nodup j)
    _ = some ((p.termRow c).lookup j) := by
      rw [CscMatrix.lookup_columnOf_entriesOf h.termRows_nodup, hrow, Option.bind_some]
    _ = some (c.coefficient v) := by
      rw [hidx, h.lookup_termRow (List.mem_of_getElem? hc)]

theorem newSession_eq [Zero α] (h : p.Coherent) : p.newSession = .ok p.loan := by
  have hvars : p.columnOrder.mapM p.vars.find = .ok p.vars.values := by
    rw [h.columnOrder_eq]
    exact p.vars.mapM_find_handles
  have hcons : p.rowOrder.mapM p.constraints.find = .ok p.constraints.values :=
    p.constraints.mapM_find_handles
  have hrows : p.constraints.values.mapM (rowEntries? p.columnOrder) = some p.termRows :=
    mapM_eq_pure fun con hcon => h.rowEntries?_eq hcon
  have hA : CscMatrix.assemble? p.columnOrder.length p.termRows = some p.exported.A :=
    CscMatrix.assemble?_eq_ofColumns h.termRows_lt
  rw [newSession, toMatrices, hvars, hcons]
  simp only [bind, Except.bind, Fault.ofRefusal, hrows, Fault.ofOption, hA]
  rw [if_neg (not_not_intro h.wellFormed_exported)]
  rfl

end Coherent

/-! ### The coefficients column by column -/

/-- The `(row, value)` pairs that the constraints have for a variable. -/
def columnEntries (p : Program α) (v : VariableId) : List (Nat × α) :=
  p.constraints.values.zipIdx.filterMap fun (con, r) => (con.coefficient v).map (r, ·)

theorem nodup_keys_columnEntries (p : Program α) (v : VariableId) :
    ((p.columnEntries v).map (·.1)).Nodup :=
  nodup_keys_filterMap_zipIdx (fun c : Constraint α => c.coefficient v) p.constraints.values

theorem lookup_columnEntries (p : Program α) (v : VariableId) (r : Nat) :
    (p.columnEntries v).lookup r = p.constraints.values[r]?.bind (·.coefficient v) :=
  lookup_filterMap_zipIdx (fun c : Constraint α => c.coefficient v) p.constraints.values r

theorem mem_columnEntries_iff {p : Program α} {v : VariableId} {r : Nat} {a : α} :
    (r, a) ∈ p.columnEntries v ↔
      ∃ c, p.constraints.values[r]? = some c ∧ c.coefficient v = some a :=
  mem_filterMap_zipIdx (f := fun c : Constraint α => c.coefficient v)

theorem lt_of_mem_columnEntries {p : Program α} {v : VariableId} {t : Nat × α}
    (ht : t ∈ p.columnEntries v) : t.1 < p.constraintCount := by
  obtain ⟨r, a⟩ := t
  obtain ⟨c, hc, -⟩ := mem_columnEntries_iff.1 ht
  have hlt := (List.getElem?_eq_some_iff.1 hc).1
  rwa [Store.length_values] at hlt

theorem Coherent.columnsOf_termRows {p : Program α} (h : p.Coherent) :
    CscMatrix.columnsOf p.columnOrder.length (CscMatrix.entriesOf p.termRows) =
      p.columnOrder.map p.columnEntries := by
  refine List.ext_getElem (by simp) ?_
  intro j hj hj'
  have hlt : j < p.columnOrder.length := by simpa using hj
  have hidx : p.columnOrder.idxOf p.columnOrder[j] = j := h.columnOrder_nodup.idxOf_getElem j hlt
  rw [CscMatrix.getElem_columnsOf, CscMatrix.columnOf_entriesOf h.termRows_nodup, List.getElem_map,
    columnEntries, termRows, List.zipIdx_map, List.filterMap_map]
  refine List.filterMap_congr ?_
  rintro ⟨con, r⟩ hmem
  have hrow := h.lookup_termRow (List.fst_mem_of_mem_zipIdx hmem) p.columnOrder[j]
  rw [hidx] at hrow
  exact congrArg (Option.map (r, ·)) hrow

theorem Coherent.exported_A {p : Program α} (h : p.Coherent) :
    p.exported.A = .ofColumns p.constraintCount (p.columnOrder.map p.columnEntries) := by
  rw [← p.rows_exported, ← h.columnsOf_termRows]
  rfl

end Program

end Socp
