import Mathlib.Algebra.BigOperators.Group.List.Basic
import Mathlib.Algebra.Ring.Int.Defs
import Mathlib.Data.List.Perm.Subperm
import Socp.Proofs.Lists
import Socp.Proofs.Sparse.Placement

/-!
Assembly puts each entry into its column. Counting, summing, placing and shifting one array of
numbers comes to the matrix whose columns list, row by row, the entries that the rows have there.
-/

namespace Socp

namespace CscMatrix

variable {α : Type}

/-! ### Counting -/

theorem foldlM_countEntry? {A : CscMatrix α} {entries : List (Entry α)}
    (h : ∀ e ∈ entries, e.col < A.colStart.size) :
    entries.foldlM (fun A e => A.countEntry? e.col) A =
      some { A with
        colStart := A.colStart.mapIdx fun j n => n + (columnOf entries j).length } := by
  induction entries generalizing A with
  | nil =>
      have hsame : A.colStart.mapIdx (fun j n => n + (columnOf ([] : List (Entry α)) j).length) =
          A.colStart := by
        apply Array.ext
        · simp
        · intro j hj hj'
          simp
      rw [hsame]
      rfl
  | cons e entries ih =>
      have he := h e List.mem_cons_self
      rw [List.foldlM_cons, countEntry?, dif_pos he]
      show entries.foldlM _ _ = _
      rw [ih (by simpa using fun e' he' => h e' (List.mem_cons_of_mem e he'))]
      congr 2
      apply Array.ext
      · simp
      · intro j hj hj'
        simp only [Array.getElem_mapIdx, Array.getElem_set, columnOf_cons]
        split
        case isTrue heq =>
          subst heq
          rw [List.length_cons]
          omega
        case isFalse hne => rfl

theorem countsToStarts_colStart {A : CscMatrix α} {columns : List (List (Nat × α))}
    (hsize : A.colStart.size = columns.length + 1)
    (hcount : ∀ j (hj : j < columns.length), A.colStart[j]? = some columns[j].length)
    {j : Nat} (hj : j ≤ columns.length) :
    A.countsToStarts.colStart[j]? = some (startOf columns j) := by
  have hlen : j < A.colStart.toList.length := by
    rw [Array.length_toList]
    omega
  have htake : A.colStart.toList.take j = (columns.take j).map List.length := by
    apply List.ext_getElem?
    intro i
    by_cases hi : i < j
    · have hi' : i < columns.length := Nat.lt_of_lt_of_le hi hj
      have hcount' := hcount i hi'
      rw [← Array.getElem?_toList] at hcount'
      simp [hi, hi', hcount']
    · rw [List.getElem?_take, if_neg hi, List.getElem?_map, List.getElem?_take, if_neg hi,
        Option.map_none]
  rw [countsToStarts, List.getElem?_toArray, getElem?_exclusiveSums 0 _ hlen, Nat.zero_add, htake,
    startOf, List.length_flatten]

/-! ### All passes together -/

variable {rows cols : Nat} {entries : List (Entry α)}

theorem length_flatten_columnsOf (hcol : ∀ e ∈ entries, e.col < cols) :
    (columnsOf cols entries).flatten.length = entries.length := by
  rw [List.length_flatten, columnsOf, List.map_map]
  induction entries with
  | nil => simp [Function.comp_def]
  | cons e entries ih =>
      have hsum : (List.length ∘ columnOf (e :: entries)) = fun j =>
          (if j = e.col then 1 else 0) + (List.length ∘ columnOf entries) j := by
        ext j
        rw [Function.comp_apply, columnOf_cons]
        by_cases hj : e.col = j
        · simp [hj, Nat.add_comm]
        · simp [hj, Ne.symm hj]
      have hone : ((List.range cols).filter (· = e.col)).length = 1 := by
        rw [← List.countP_eq_length_filter]
        have hcount : (List.range cols).count e.col = 1 := by
          rw [List.count_range, if_pos (hcol e List.mem_cons_self)]
        exact hcount
      rw [hsum, List.sum_map_add, ih fun e' he' => hcol e' (List.mem_cons_of_mem e he'),
        List.sum_map_ite]
      simp [hone]
      omega

theorem map_entriesOf (rows : List (List (Nat × α))) :
    (entriesOf rows).map (fun e => (e.col, e.value)) = rows.flatten := by
  rw [entriesOf, List.map_flatMap]
  simp only [List.map_map, Function.comp_def, List.map_id']
  rw [List.flatMap_def, List.zipIdx_map_fst]

theorem length_entriesOf (rows : List (List (Nat × α))) :
    (entriesOf rows).length = rows.flatten.length := by
  rw [← map_entriesOf, List.length_map]

theorem col_lt_of_mem_entriesOf {rows : List (List (Nat × α))}
    (hcols : ∀ row ∈ rows, ∀ t ∈ row, t.1 < cols) : ∀ e ∈ entriesOf rows, e.col < cols := by
  intro e he
  have hmem : (e.col, e.value) ∈ rows.flatten := by
    rw [← map_entriesOf]
    exact List.mem_map_of_mem he
  obtain ⟨row, hrow, ht⟩ := List.mem_flatten.1 hmem
  exact hcols row hrow _ ht

theorem foldlM_countRow? (rows : List (List (Nat × α))) (A : CscMatrix α) :
    rows.foldlM countRow? A = (entriesOf rows).foldlM (fun A e => A.countEntry? e.col) A := by
  have hflat : rows.foldlM countRow? A =
      rows.flatten.foldlM (fun A t => A.countEntry? t.1) A := (foldlM_flatten ..).symm
  rw [hflat, ← map_entriesOf, List.foldlM_map]

theorem foldlM_placeRow? (rows : List (List (Nat × α))) (A : CscMatrix α) :
    rows.zipIdx.foldlM (fun A (row, r) => A.placeRow? r row) A =
      (entriesOf rows).foldlM (fun A e => A.placeEntry? e.row e.col e.value) A := by
  rw [entriesOf, List.flatMap_def, foldlM_flatten, List.foldlM_map]
  simp only [List.foldlM_map]
  rfl

/-- Room for the entries, with the number of each column's entries in place of its start. -/
def countedRoom [Zero α] (rows cols : Nat) (entries : List (Entry α)) : CscMatrix α :=
  { reserve rows cols entries.length with
    colStart := (Array.replicate (cols + 1) 0).mapIdx fun j n => n + (columnOf entries j).length }

/-- Nothing has been placed as long as every cursor stands at the start of its column. -/
theorem filling_countedRoom [Zero α] (hcol : ∀ e ∈ entries, e.col < cols) :
    Filling rows cols entries [] (countedRoom rows cols entries).countsToStarts where
  rows_eq := rfl
  cols_eq := rfl
  size_colStart := by simp [countsToStarts, countedRoom]
  size_rowIndex := by
    rw [length_flatten_columnsOf hcol]
    exact Array.size_replicate
  size_value := by
    rw [length_flatten_columnsOf hcol]
    exact Array.size_replicate
  cursor j hj := by
    apply countsToStarts_colStart
    · simp [countedRoom]
    · intro i hi
      have hi' : i < cols := by simpa using hi
      have hlt : i < cols + 1 := Nat.lt_succ_of_lt hi'
      rw [getElem_columnsOf]
      simp [countedRoom, hlt]
    · simpa using hj
  rowIndex j hj r t ht := by cases ht
  value j hj r t ht := by cases ht

/-- Room for the pairs of the rows, with nothing counted yet. -/
def blankRoom [Zero α] (cols : Nat) (rows : List (List (Nat × α))) : CscMatrix α :=
  let room : CscMatrix α := reserve rows.length cols rows.flatten.length
  { room with colStart := room.colStart.map fun _ => 0 }

theorem foldlM_countRow?_blankRoom [Zero α] {cols : Nat} {rows : List (List (Nat × α))}
    (hcol : ∀ e ∈ entriesOf rows, e.col < cols) :
    rows.foldlM countRow? (blankRoom cols rows) =
      some (countedRoom rows.length cols (entriesOf rows)) := by
  have hblank : ((reserve rows.length cols rows.flatten.length : CscMatrix α).colStart.map
      fun _ => 0) = Array.replicate (cols + 1) 0 := by
    rw [reserve, Array.map_push, Array.map_replicate, Array.replicate_succ]
  have hsize (e : Entry α) (he : e ∈ entriesOf rows) :
      e.col < (Array.replicate (cols + 1) 0).size := by
    rw [Array.size_replicate]
    exact Nat.lt_succ_of_lt (hcol e he)
  rw [blankRoom, hblank, foldlM_countRow?, foldlM_countEntry? hsize, countedRoom, length_entriesOf]

/-- The passes of an assembly: what comes of counting, what comes of placing from the starts on, and
the slots that placing writes, all of them once. -/
structure Passes [Zero α] (cols : Nat) (rows : List (List (Nat × α))) (counted placed : CscMatrix α)
    (slots : List Nat) : Prop where
  count_eq : rows.foldlM countRow? (blankRoom cols rows) = some counted
  place_eq : rows.zipIdx.foldlM (fun A (row, r) => A.placeRow? r row) counted.countsToStarts =
    some placed
  writes : counted.countsToStarts.Writes (entriesOf rows) slots placed
  slots_perm : slots.Perm (List.range rows.flatten.length)
  assemble?_eq : assemble? cols rows = some placed.shiftStartsBack

/-- Rows whose columns lie inside the matrix go through all passes, and fill the columns. -/
theorem exists_passes [Zero α] {cols : Nat} {rows : List (List (Nat × α))}
    (hcols : ∀ row ∈ rows, ∀ t ∈ row, t.1 < cols) :
    ∃ counted placed slots, Passes cols rows counted placed slots ∧
      Filling rows.length cols (entriesOf rows) (entriesOf rows) placed := by
  have hcol := col_lt_of_mem_entriesOf hcols
  have hcount := foldlM_countRow?_blankRoom hcol
  have hstart : Filling rows.length cols (entriesOf rows) [] _ := filling_countedRoom hcol
  obtain ⟨slots, placed, hwrites, hfill, hnodup, hslots⟩ :=
    hstart.exists_writes (List.nil_append _).symm hcol
  have hplace := (foldlM_placeRow? rows _).trans hwrites.foldlM_eq
  refine ⟨_, placed, slots, ⟨hcount, hplace, hwrites, ?_, ?_⟩, hfill⟩
  · -- as many slots as there are entries, all different and all inside the arrays
    have hsub : slots ⊆ List.range rows.flatten.length := by
      intro slot hslot
      have hlt := (hslots slot hslot).1
      rw [length_flatten_columnsOf hcol, length_entriesOf] at hlt
      exact List.mem_range.2 hlt
    refine (hnodup.subperm hsub).perm_of_length_le ?_
    rw [List.length_range, hwrites.length_eq, length_entriesOf]
  · show (rows.foldlM countRow? (blankRoom cols rows) >>= fun counted =>
      rows.zipIdx.foldlM (fun A (row, r) => A.placeRow? r row) counted.countsToStarts >>= fun A =>
        pure A.shiftStartsBack) = _
    rw [hcount, Option.bind_eq_bind, Option.bind_some, hplace]
    rfl

/-- Assembly succeeds on rows whose columns lie inside the matrix, and each column of the result
lists the entries of the rows in order. -/
theorem assemble?_eq_ofColumns [Zero α] {cols : Nat} {rows : List (List (Nat × α))}
    (hcols : ∀ row ∈ rows, ∀ t ∈ row, t.1 < cols) :
    assemble? cols rows = some (ofColumns rows.length (columnsOf cols (entriesOf rows))) := by
  obtain ⟨counted, placed, slots, hpasses, hfill⟩ := exists_passes hcols
  rw [hpasses.assemble?_eq, hfill.shiftStartsBack_eq]

/-! ### The assembled columns -/

theorem columnOf_entriesOf_eq_flatMap (rows : List (List (Nat × α))) (j : Nat) :
    columnOf (entriesOf rows) j =
      rows.zipIdx.flatMap fun (row, r) => (row.filter (·.1 = j)).map fun t => (r, t.2) := by
  rw [columnOf, entriesOf, List.filter_flatMap, List.map_flatMap]
  simp only [List.filter_map, List.map_map]
  rfl

theorem length_columnOf_entriesOf (rows : List (List (Nat × α))) (j : Nat) :
    (columnOf (entriesOf rows) j).length = rows.flatten.countP (·.1 = j) := by
  rw [← map_entriesOf, List.countP_map, List.countP_eq_length_filter, columnOf, List.length_map]
  rfl

/-! ### Rows that name each column once -/

theorem columnOf_entriesOf {rows : List (List (Nat × α))}
    (hdistinct : ∀ row ∈ rows, (row.map (·.1)).Nodup) (j : Nat) :
    columnOf (entriesOf rows) j =
      rows.zipIdx.filterMap fun (row, r) => (row.lookup j).map (r, ·) := by
  rw [columnOf_entriesOf_eq_flatMap, List.filterMap_eq_flatMap_toList]
  refine List.flatMap_congr ?_
  rintro ⟨row, r⟩ ht
  show (row.filter (·.1 = j)).map (fun t => (r, t.2)) = ((row.lookup j).map (r, ·)).toList
  rw [filter_eq_map_lookup (hdistinct row (List.fst_mem_of_mem_zipIdx ht))]
  cases row.lookup j <;> rfl

theorem mem_columnOf_entriesOf {rows : List (List (Nat × α))}
    (hdistinct : ∀ row ∈ rows, (row.map (·.1)).Nodup) {j r : Nat} {a : α} :
    (r, a) ∈ columnOf (entriesOf rows) j ↔ ∃ row, rows[r]? = some row ∧ row.lookup j = some a := by
  rw [columnOf_entriesOf hdistinct]
  exact mem_filterMap_zipIdx

theorem pairwise_columnOf_entriesOf {rows : List (List (Nat × α))}
    (hdistinct : ∀ row ∈ rows, (row.map (·.1)).Nodup) (j : Nat) :
    (columnOf (entriesOf rows) j).Pairwise fun s t => s.1 < t.1 := by
  rw [columnOf_entriesOf hdistinct]
  exact pairwise_filterMap_zipIdx _ rows

theorem lookup_columnOf_entriesOf {rows : List (List (Nat × α))}
    (hdistinct : ∀ row ∈ rows, (row.map (·.1)).Nodup) (j r : Nat) :
    (columnOf (entriesOf rows) j).lookup r = rows[r]?.bind (·.lookup j) := by
  rw [columnOf_entriesOf hdistinct]
  exact lookup_filterMap_zipIdx _ rows r

theorem wellFormed_columnsOf {cols : Nat} {rows : List (List (Nat × α))}
    (hdistinct : ∀ row ∈ rows, (row.map (·.1)).Nodup) :
    (ofColumns rows.length (columnsOf cols (entriesOf rows))).WellFormed := by
  apply wellFormed_ofColumns
  · intro c hc
    obtain ⟨j, -, rfl⟩ := List.mem_map.1 hc
    exact pairwise_columnOf_entriesOf hdistinct j
  · intro c hc t ht
    obtain ⟨j, -, rfl⟩ := List.mem_map.1 hc
    obtain ⟨row, hrow, -⟩ := (mem_columnOf_entriesOf hdistinct).1 ht
    exact (List.getElem?_eq_some_iff.1 hrow).1

/-! ### What assembly makes of rows -/

/-- The matrix stores the pairs of the rows, column by column. -/
structure HoldsRows (A : CscMatrix α) (cols : Nat) (rows : List (List (Nat × α))) : Prop where
  rows_eq : A.rows = rows.length
  cols_eq : A.cols = cols
  size_colStart : A.colStart.size = cols + 1
  size_rowIndex : A.rowIndex.size = rows.flatten.length
  size_value : A.value.size = rows.flatten.length
  start_zero : A.colStart[0]? = some 0
  start_last : A.colStart[cols]? = some rows.flatten.length
  start_succ : ∀ j < cols, ∃ start, A.colStart[j]? = some start ∧
    A.colStart[j + 1]? = some (start + rows.flatten.countP (·.1 = j))
  column?_eq : ∀ j < cols, A.column? j =
    some (rows.zipIdx.flatMap fun (row, r) => (row.filter (·.1 = j)).map fun t => (r, t.2))

theorem holdsRows_ofColumns {cols : Nat} {rows : List (List (Nat × α))}
    (hcols : ∀ row ∈ rows, ∀ t ∈ row, t.1 < cols) :
    (ofColumns rows.length (columnsOf cols (entriesOf rows))).HoldsRows cols rows := by
  have hlength : (columnsOf cols (entriesOf rows)).length = cols := length_columnsOf ..
  have htotal : (columnsOf cols (entriesOf rows)).flatten.length = rows.flatten.length := by
    rw [length_flatten_columnsOf (col_lt_of_mem_entriesOf hcols), length_entriesOf]
  constructor
  case rows_eq => rfl
  case cols_eq => exact hlength
  case size_colStart => rw [size_colStart_ofColumns, hlength]
  case size_rowIndex => rw [size_rowIndex_ofColumns, htotal]
  case size_value => rw [size_value_ofColumns, htotal]
  case start_zero => exact colStart_ofColumns (Nat.zero_le _)
  case start_last =>
    have hlast : (ofColumns rows.length (columnsOf cols (entriesOf rows))).nnz? = some _ :=
      nnz?_ofColumns
    rwa [nnz?, cols_ofColumns, hlength, htotal] at hlast
  case start_succ =>
    intro j hj
    have hj' : j < (columnsOf cols (entriesOf rows)).length := by rwa [hlength]
    refine ⟨_, colStart_ofColumns (Nat.le_of_lt hj'), ?_⟩
    rw [colStart_ofColumns hj', startOf_succ hj', getElem_columnsOf, length_columnOf_entriesOf]
  case column?_eq =>
    intro j hj
    have hj' : j < (columnsOf cols (entriesOf rows)).length := by rwa [hlength]
    rw [column?_ofColumns hj', getElem_columnsOf, columnOf_entriesOf_eq_flatMap]

/-- Rows whose columns lie inside the matrix, in any order, go through all passes. Placing writes
every slot once, the matrix stores the pairs of the rows column by column, and it passes the test if
no row names a column twice. -/
theorem assemble?_holdsRows [Zero α] {cols : Nat} {rows : List (List (Nat × α))}
    (hcols : ∀ row ∈ rows, ∀ t ∈ row, t.1 < cols) :
    ∃ counted placed slots, Passes cols rows counted placed slots ∧
      List.Forall₂ (fun e slot =>
        placed.rowIndex[slot]? = some e.row ∧ placed.value[slot]? = some e.value)
        (entriesOf rows) slots ∧
      placed.shiftStartsBack.HoldsRows cols rows ∧
      ((∀ row ∈ rows, (row.map (·.1)).Nodup) →
        placed.shiftStartsBack.checkFormat? = some (.ok ())) := by
  obtain ⟨counted, placed, slots, hpasses, hfill⟩ := exists_passes hcols
  have hnodup : slots.Nodup := hpasses.slots_perm.nodup_iff.2 List.nodup_range
  refine ⟨counted, placed, slots, hpasses, hpasses.writes.forall₂_getElem? hnodup, ?_, ?_⟩
  · rw [hfill.shiftStartsBack_eq]
    exact holdsRows_ofColumns hcols
  · intro hdistinct
    rw [hfill.shiftStartsBack_eq]
    exact wellFormed_columnsOf hdistinct

/-- Rows out of order, an empty one, a zero that is stored, and a column without entries. -/
theorem assemble?_holdsRows_with_gaps :
    let rows : List (List (Nat × Int)) := [[(2, 7), (0, 1)], [], [(2, 0)], [(1, 5), (0, -4)]]
    (∀ row ∈ rows, ∀ t ∈ row, t.1 < 4) ∧ (∀ row ∈ rows, (row.map (·.1)).Nodup) ∧
      (assemble? 4 rows).map (fun A => (A.colStart, A.rowIndex, A.value)) =
        some (#[0, 2, 3, 5, 5], #[0, 3, 3, 0, 2], #[1, -4, 5, 7, 0]) ∧
      ∃ counted placed slots, Passes 4 rows counted placed slots ∧
        List.Forall₂ (fun e slot =>
          placed.rowIndex[slot]? = some e.row ∧ placed.value[slot]? = some e.value)
          (entriesOf rows) slots ∧
        placed.shiftStartsBack.HoldsRows 4 rows ∧
        placed.shiftStartsBack.checkFormat? = some (.ok ()) := by
  intro rows
  have hcols : ∀ row ∈ rows, ∀ t ∈ row, t.1 < 4 := by decide
  have hdistinct : ∀ row ∈ rows, (row.map (·.1)).Nodup := by decide
  obtain ⟨counted, placed, slots, hpasses, hslots, hholds, hformat⟩ := assemble?_holdsRows hcols
  exact ⟨hcols, hdistinct, by decide +kernel, counted, placed, slots, hpasses, hslots, hholds,
    hformat hdistinct⟩

end CscMatrix

end Socp
