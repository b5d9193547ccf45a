import Mathlib.Algebra.GroupWithZero.Nat
import Mathlib.Data.List.Range
import Socp.Sparse.Assembly
import Socp.Sparse.Format

/-!
Matrices given by their columns. Laying the columns out one after the other fixes all three arrays
of the storage, so what an operation reads from them can be said in terms of the columns: the pairs
of a column, the number of entries, and what the test for the format asks of the columns.
-/

namespace Socp

namespace CscMatrix

variable {α : Type}

/-! ### Where columns start -/

theorem getElem?_exclusiveSums (start : Nat) (ns : List Nat) {j : Nat} (hj : j < ns.length) :
    (exclusiveSums start ns)[j]? = some (start + (ns.take j).sum) := by
  induction ns generalizing start j with
  | nil => cases hj
  | cons n ns ih =>
      cases j with
      | zero => rfl
      | succ j =>
          have hj' : j < ns.length := by simpa using hj
          rw [exclusiveSums, List.getElem?_cons_succ, ih (start + n) hj', List.take_succ_cons,
            List.sum_cons, Nat.add_assoc]

/-- The position at which column `j` starts when the columns follow one another. -/
def startOf (columns : List (List (Nat × α))) (j : Nat) : Nat := (columns.take j).flatten.length

@[simp] theorem startOf_zero (columns : List (List (Nat × α))) : startOf columns 0 = 0 := rfl

theorem startOf_succ {columns : List (List (Nat × α))} {j : Nat} (hj : j < columns.length) :
    startOf columns (j + 1) = startOf columns j + columns[j].length := by
  rw [startOf, List.take_succ_eq_append_getElem hj, List.flatten_append, List.length_append,
    startOf]
  simp

theorem startOf_cons_succ (c : List (Nat × α)) (columns : List (List (Nat × α))) (j : Nat) :
    startOf (c :: columns) (j + 1) = c.length + startOf columns j := by
  simp [startOf]

theorem startOf_length (columns : List (List (Nat × α))) :
    startOf columns columns.length = columns.flatten.length := by
  rw [startOf, List.take_length]

theorem startOf_le (columns : List (List (Nat × α))) (j : Nat) :
    startOf columns j ≤ columns.flatten.length := by
  have hsplit : columns.flatten = (columns.take j).flatten ++ (columns.drop j).flatten := by
    rw [← List.flatten_append, List.take_append_drop]
  rw [startOf, hsplit, List.length_append]
  exact Nat.le_add_right ..

theorem startOf_mono (columns : List (List (Nat × α))) {i j : Nat} (hij : i ≤ j) :
    startOf columns i ≤ startOf columns j := by
  have htake : startOf columns i = startOf (columns.take j) i := by
    rw [startOf, startOf, List.take_take, Nat.min_eq_left hij]
  rw [htake]
  exact startOf_le (columns.take j) i

theorem lt_startOf_of_lt {columns : List (List (Nat × α))} {i j r : Nat} (hij : i < j)
    (hi : i < columns.length) (hr : r < columns[i].length) :
    startOf columns i + r < startOf columns j := by
  have hmono := startOf_mono columns (Nat.succ_le_of_lt hij)
  rw [Nat.succ_eq_add_one, startOf_succ hi] at hmono
  omega

theorem getElem?_flatten_startOf {columns : List (List (Nat × α))} {j r : Nat}
    (hj : j < columns.length) (hr : r < columns[j].length) :
    columns.flatten[startOf columns j + r]? = some columns[j][r] := by
  induction columns generalizing j with
  | nil => cases hj
  | cons c columns ih =>
      cases j with
      | zero =>
          simp only [List.getElem_cons_zero] at hr ⊢
          rw [startOf_zero, Nat.zero_add, List.flatten_cons, List.getElem?_append_left hr,
            List.getElem?_eq_getElem hr]
      | succ j =>
          -- behind the first column, positions count from its end
          have hj' : j < columns.length := by simpa using hj
          rw [startOf_cons_succ, List.flatten_cons, List.getElem?_append_right (by omega)]
          have hpos : c.length + startOf columns j + r - c.length = startOf columns j + r := by
            omega
          rw [hpos]
          exact ih hj' hr

/-- Every position belongs to an entry of some column. -/
theorem exists_startOf_add {columns : List (List (Nat × α))} {i : Nat}
    (hi : i < columns.flatten.length) :
    ∃ j r, ∃ hj : j < columns.length, r < columns[j].length ∧ i = startOf columns j + r := by
  induction columns generalizing i with
  | nil => cases hi
  | cons c columns ih =>
      by_cases hc : i < c.length
      · exact ⟨0, i, by simp, hc, by simp⟩
      · have hrest : i - c.length < columns.flatten.length := by
          rw [List.flatten_cons, List.length_append] at hi
          omega
        obtain ⟨j, r, hj, hr, heq⟩ := ih hrest
        refine ⟨j + 1, r, by simpa using hj, hr, ?_⟩
        rw [startOf_cons_succ]
        omega

/-! ### The storage of given columns -/

/-- The matrix whose columns hold the given `(row, value)` pairs. -/
def ofColumns (rows : Nat) (columns : List (List (Nat × α))) : CscMatrix α where
  rows := rows
  cols := columns.length
  colStart := ((List.range (columns.length + 1)).map (startOf columns)).toArray
  rowIndex := (columns.flatten.map (·.1)).toArray
  value := (columns.flatten.map (·.2)).toArray

variable {rows : Nat} {columns : List (List (Nat × α))}

@[simp] theorem rows_ofColumns : (ofColumns rows columns).rows = rows := rfl

@[simp] theorem cols_ofColumns : (ofColumns rows columns).cols = columns.length := rfl

@[simp] theorem size_colStart_ofColumns :
    (ofColumns rows columns).colStart.size = columns.length + 1 := by
  simp [ofColumns]

@[simp] theorem size_rowIndex_ofColumns :
    (ofColumns rows columns).rowIndex.size = columns.flatten.length := by
  rw [ofColumns, List.size_toArray, List.length_map]

@[simp] theorem size_value_ofColumns :
    (ofColumns rows columns).value.size = columns.flatten.length := by
  rw [ofColumns, List.size_toArray, List.length_map]

theorem colStart_ofColumns {j : Nat} (hj : j ≤ columns.length) :
    (ofColumns rows columns).colStart[j]? = some (startOf columns j) := by
  simp [ofColumns, Nat.lt_succ_of_le hj]

theorem exists_flatten_eq {j : Nat} (hj : j < columns.length) :
    ∃ before after, columns.flatten = before ++ (columns[j] ++ after) ∧
      before.length = startOf columns j := by
  refine ⟨(columns.take j).flatten, (columns.drop (j + 1)).flatten, ?_, rfl⟩
  rw [← List.flatten_cons, ← List.drop_eq_getElem_cons hj, ← List.flatten_append,
    List.take_append_drop]

theorem slice?_flatten {β : Type} (f : Nat × α → β) {j : Nat} (hj : j < columns.length) :
    slice? (columns.flatten.map f).toArray (startOf columns j) (startOf columns (j + 1)) =
      some (columns[j].map f).toArray := by
  have hle : startOf columns (j + 1) ≤ (columns.flatten.map f).toArray.size := by
    rw [List.size_toArray, List.length_map]
    exact startOf_le columns (j + 1)
  rw [slice?, if_pos ⟨startOf_mono columns (Nat.le_succ j), hle⟩, startOf_succ hj]
  obtain ⟨before, after, hflat, hbefore⟩ := exists_flatten_eq hj
  rw [hflat, ← hbefore]
  simp [List.extract_eq_take_drop]

@[simp] theorem nnz?_ofColumns : (ofColumns rows columns).nnz? = some columns.flatten.length := by
  rw [nnz?, cols_ofColumns, colStart_ofColumns (Nat.le_refl _), startOf_length]

theorem column?_ofColumns {j : Nat} (hj : j < columns.length) :
    (ofColumns rows columns).column? j = some columns[j] := by
  have hrows := slice?_flatten (·.1) hj
  have hvalues := slice?_flatten (·.2) hj
  rw [column?, colStart_ofColumns (Nat.le_of_lt hj), colStart_ofColumns hj]
  simp only [ofColumns, Option.bind_eq_bind, Option.bind_some, hrows, hvalues, Option.pure_def,
    Option.some.injEq]
  rw [List.zip_map', List.map_id']

/-! ### Format -/

theorem neighboursAny_eq_false_iff {β : Type} {r : β → β → Bool} {l : List β} :
    neighboursAny r l = false ↔ l.IsChain fun x y => r x y = false := by
  induction l with
  | nil => simp [neighboursAny]
  | cons x l ih =>
      cases l with
      | nil => simp [neighboursAny]
      | cons y l => simp [neighboursAny, ih]

/-- Rows that increase from neighbour to neighbour increase throughout. -/
theorem rows_increase_iff {l : List Nat} :
    neighboursAny (fun r s => s ≤ r) l = false ↔ l.Pairwise (· < ·) := by
  rw [neighboursAny_eq_false_iff, ← List.isChain_iff_pairwise]
  simp

theorem columnDisordered?_ofColumns {j : Nat} (hj : j < columns.length)
    (hsorted : columns[j].Pairwise fun s t => s.1 < t.1) :
    (ofColumns rows columns).columnDisordered? j = some false := by
  have hrows := slice?_flatten (·.1) hj
  rw [columnDisordered?, colStart_ofColumns (Nat.le_of_lt hj), colStart_ofColumns hj]
  simp only [ofColumns, Option.bind_eq_bind, Option.bind_some, hrows, Option.pure_def,
    Option.some.injEq]
  rw [rows_increase_iff, List.pairwise_map]
  exact hsorted

theorem disordered?_of_forall {A : CscMatrix α} {cols : List Nat}
    (h : ∀ col ∈ cols, A.columnDisordered? col = some false) : A.disordered? cols = some false := by
  induction cols with
  | nil => rfl
  | cons col cols ih =>
      rw [disordered?, h col List.mem_cons_self]
      exact ih fun col' hcol' => h col' (List.mem_cons_of_mem col hcol')

theorem wellFormed_ofColumns
    (hsorted : ∀ c ∈ columns, c.Pairwise fun s t => s.1 < t.1)
    (hrows : ∀ c ∈ columns, ∀ t ∈ c, t.1 < rows) : (ofColumns rows columns).WellFormed := by
  have hstarts : neighboursAny (fun p q => decide (q < p))
      (ofColumns rows columns).colStart.toList = false := by
    rw [neighboursAny_eq_false_iff, ofColumns, List.isChain_map]
    refine (List.isChain_range_succ _ _).2 ?_
    intro j _
    simpa using startOf_mono columns (Nat.le_succ j)
  have hdisordered : (ofColumns rows columns).disordered? (List.range columns.length) =
      some false := by
    refine disordered?_of_forall ?_
    intro j hj
    have hj' : j < columns.length := List.mem_range.1 hj
    exact columnDisordered?_ofColumns hj' (hsorted _ (List.getElem_mem hj'))
  have hbound : (ofColumns rows columns).rowIndex.any ((ofColumns rows columns).rows ≤ ·) =
      false := by
    rw [ofColumns, List.any_toArray, List.any_eq_false]
    intro r hr
    obtain ⟨t, ht, rfl⟩ := List.mem_map.1 hr
    obtain ⟨c, hc, htc⟩ := List.mem_flatten.1 ht
    simpa using hrows c hc t htc
  have hnonempty : (ofColumns rows columns).colStart.isEmpty = false := by
    simp [Array.isEmpty]
  have hlast : (ofColumns rows columns).colStart[columns.length]? =
      some (ofColumns rows columns).rowIndex.size := by
    rw [colStart_ofColumns (Nat.le_refl _), startOf_length, size_rowIndex_ofColumns]
  have hsize : (ofColumns rows columns).rowIndex.size = (ofColumns rows columns).value.size := by
    rw [size_rowIndex_ofColumns, size_value_ofColumns]
  rw [WellFormed, checkFormat?, if_neg (not_not_intro hsize)]
  simp only [cols_ofColumns, size_colStart_ofColumns, hnonempty, hlast, hstarts, hdisordered,
    hbound]
  simp

end CscMatrix

end Socp
