import Socp.Proofs.Sparse.Columns

/-!
Placing entries by their columns. Each entry goes to the slot at which the cursor of its column
stands, and the cursors of different columns never meet, so every slot is written once and keeps
what it is given.
-/

namespace Socp

namespace CscMatrix

variable {α : Type}

/-! ### Entries -/

structure Entry (α : Type) where
  row : Nat
  col : Nat
  value : α

/-- The entries of rows of `(column, value)` pairs, row by row. -/
def entriesOf (rows : List (List (Nat × α))) : List (Entry α) :=
  rows.zipIdx.flatMap fun (row, r) => row.map fun t => ⟨r, t.1, t.2⟩

/-- The `(row, value)` pairs of a column, in the order of the entries. -/
def columnOf (entries : List (Entry α)) (j : Nat) : List (Nat × α) :=
  (entries.filter (·.col = j)).map fun e => (e.row, e.value)

@[simp] theorem columnOf_nil (j : Nat) : columnOf ([] : List (Entry α)) j = [] := rfl

theorem columnOf_append (entries entries' : List (Entry α)) (j : Nat) :
    columnOf (entries ++ entries') j = columnOf entries j ++ columnOf entries' j := by
  simp [columnOf]

theorem columnOf_singleton (e : Entry α) (j : Nat) :
    columnOf [e] j = if e.col = j then [(e.row, e.value)] else [] := by
  by_cases hj : e.col = j <;> simp [columnOf, hj]

theorem columnOf_cons (e : Entry α) (entries : List (Entry α)) (j : Nat) :
    columnOf (e :: entries) j =
      if e.col = j then (e.row, e.value) :: columnOf entries j else columnOf entries j := by
  by_cases hj : e.col = j <;> simp [columnOf, hj]

/-- All columns, as the entries fill them. -/
def columnsOf (cols : Nat) (entries : List (Entry α)) : List (List (Nat × α)) :=
  (List.range cols).map (columnOf entries)

@[simp] theorem length_columnsOf (cols : Nat) (entries : List (Entry α)) :
    (columnsOf cols entries).length = cols := by
  simp [columnsOf]

theorem getElem_columnsOf {cols : Nat} {entries : List (Entry α)} {j : Nat}
    (hj : j < (columnsOf cols entries).length) :
    (columnsOf cols entries)[j] = columnOf entries j := by
  simp [columnsOf]

/-! ### Logs of writes -/

/-- Placing an entry writes one slot of both arrays, where the cursor of its column stands. -/
structure Written (A : CscMatrix α) (e : Entry α) (slot : Nat) (B : CscMatrix α) : Prop where
  placeEntry?_eq : A.placeEntry? e.row e.col e.value = some B
  cursor : A.colStart[e.col]? = some slot
  lt_rowIndex : slot < A.rowIndex.size
  lt_value : slot < A.value.size
  rowIndex_eq : B.rowIndex = A.rowIndex.setIfInBounds slot e.row
  value_eq : B.value = A.value.setIfInBounds slot e.value

/-- Placing entries one after the other writes the given slots in turn. -/
inductive Writes : CscMatrix α → List (Entry α) → List Nat → CscMatrix α → Prop
  | nil {A : CscMatrix α} : Writes A [] [] A
  | cons {A B C : CscMatrix α} {e : Entry α} {slot : Nat} {entries : List (Entry α)}
      {slots : List Nat} (first : A.Written e slot B) (rest : Writes B entries slots C) :
      Writes A (e :: entries) (slot :: slots) C

theorem exists_written {A B : CscMatrix α} {e : Entry α}
    (h : A.placeEntry? e.row e.col e.value = some B) : ∃ slot, A.Written e slot B := by
  have hplace := h
  unfold placeEntry? at h
  obtain ⟨slot, hcursor, h⟩ := Option.bind_eq_some_iff.1 h
  split at h
  case isTrue hlt =>
    cases h
    exact ⟨slot, hplace, hcursor, hlt.1, hlt.2, rfl, rfl⟩
  case isFalse => cases h

namespace Writes

variable {A B : CscMatrix α} {entries : List (Entry α)} {slots : List Nat}

theorem length_eq (h : A.Writes entries slots B) : slots.length = entries.length := by
  induction h with
  | nil => rfl
  | cons first rest ih => rw [List.length_cons, List.length_cons, ih]

theorem foldlM_eq (h : A.Writes entries slots B) :
    entries.foldlM (fun A e => A.placeEntry? e.row e.col e.value) A = some B := by
  induction h with
  | nil => rfl
  | cons first rest ih =>
      rw [List.foldlM_cons, first.placeEntry?_eq]
      exact ih

theorem getElem?_of_not_mem (h : A.Writes entries slots B) {i : Nat} (hi : i ∉ slots) :
    B.rowIndex[i]? = A.rowIndex[i]? ∧ B.value[i]? = A.value[i]? := by
  induction h with
  | nil => exact ⟨rfl, rfl⟩
  | cons first rest ih =>
      have hne := (List.ne_of_not_mem_cons hi).symm
      obtain ⟨hrow, hvalue⟩ := ih (List.not_mem_of_not_mem_cons hi)
      rw [hrow, hvalue, first.rowIndex_eq, first.value_eq,
        Array.getElem?_setIfInBounds_ne hne, Array.getElem?_setIfInBounds_ne hne]
      exact ⟨rfl, rfl⟩

/-- A slot that is written once holds in the end what was written to it. -/
theorem forall₂_getElem? (h : A.Writes entries slots B) (hnodup : slots.Nodup) :
    List.Forall₂ (fun e slot => B.rowIndex[slot]? = some e.row ∧ B.value[slot]? = some e.value)
      entries slots := by
  induction h with
  | nil => exact .nil
  | cons first rest ih =>
      obtain ⟨hslot, hslots⟩ := List.nodup_cons.1 hnodup
      obtain ⟨hrow, hvalue⟩ := rest.getElem?_of_not_mem hslot
      refine .cons ⟨?_, ?_⟩ (ih hslots)
      · rw [hrow, first.rowIndex_eq, Array.getElem?_setIfInBounds_self_of_lt first.lt_rowIndex]
      · rw [hvalue, first.value_eq, Array.getElem?_setIfInBounds_self_of_lt first.lt_value]

end Writes

/-! ### Filling columns -/

/-- Whether an array shows `f` of the entries of `done` where the columns of `entries` have them. -/
def Shows {β : Type} (f : Nat × α → β) (cols : Nat) (entries done : List (Entry α))
    (xs : Array β) : Prop :=
  ∀ j < cols, ∀ r t, (columnOf done j)[r]? = some t →
    xs[startOf (columnsOf cols entries) j + r]? = some (f t)

/-- The state of a matrix to be filled with `entries` when those of `done` have been placed. The
cursor of each column stands behind them, and the positions before it show them in order. -/
structure Filling (rows cols : Nat) (entries done : List (Entry α)) (A : CscMatrix α) : Prop where
  rows_eq : A.rows = rows
  cols_eq : A.cols = cols
  size_colStart : A.colStart.size = cols + 1
  size_rowIndex : A.rowIndex.size = (columnsOf cols entries).flatten.length
  size_value : A.value.size = (columnsOf cols entries).flatten.length
  cursor : ∀ j ≤ cols, A.colStart[j]? =
    some (startOf (columnsOf cols entries) j + (columnOf done j).length)
  rowIndex : Shows (·.1) cols entries done A.rowIndex
  value : Shows (·.2) cols entries done A.value

variable {rows cols : Nat} {entries done rest : List (Entry α)} {e : Entry α} {A : CscMatrix α}

theorem columnOf_split (hsplit : entries = done ++ e :: rest) (j : Nat) :
    columnOf entries j = columnOf done j ++ columnOf (e :: rest) j := by
  rw [hsplit, columnOf_append]

theorem lt_length_columnOf (hsplit : entries = done ++ e :: rest) :
    (columnOf done e.col).length < (columnOf entries e.col).length := by
  rw [columnOf_split hsplit, columnOf_cons, if_pos rfl]
  simp

theorem cursor_lt (hsplit : entries = done ++ e :: rest) (he : e.col < cols) :
    startOf (columnsOf cols entries) e.col + (columnOf done e.col).length <
      (columnsOf cols entries).flatten.length := by
  have hlen : e.col < (columnsOf cols entries).length := by simpa using he
  have hnext := startOf_le (columnsOf cols entries) (e.col + 1)
  rw [startOf_succ hlen, getElem_columnsOf] at hnext
  have hself := lt_length_columnOf hsplit
  omega

/-- What has been placed in other columns lies before the start of the entry's column or behind its
end, so the cursor never meets it. -/
theorem cursor_ne (hsplit : entries = done ++ e :: rest) (he : e.col < cols) {j r : Nat}
    (hj : j < cols) (hr : r < (columnOf done j).length) :
    startOf (columnsOf cols entries) e.col + (columnOf done e.col).length ≠
      startOf (columnsOf cols entries) j + r := by
  have hself := lt_length_columnOf hsplit
  have hr' : r < (columnOf entries j).length := by
    rw [columnOf_split hsplit, List.length_append]
    omega
  rcases Nat.lt_trichotomy j e.col with hlt | heq | hgt
  · -- the whole of column `j` lies before the start of the other
    have hbefore : startOf (columnsOf cols entries) j + r <
        startOf (columnsOf cols entries) e.col := by
      apply lt_startOf_of_lt hlt (by simpa using hj)
      rwa [getElem_columnsOf]
    omega
  · subst heq
    omega
  · -- the cursor is inside its column still, which lies before column `j`
    have hbehind : startOf (columnsOf cols entries) e.col + (columnOf done e.col).length <
        startOf (columnsOf cols entries) j := by
      apply lt_startOf_of_lt hgt (by simpa using he)
      rwa [getElem_columnsOf]
    omega

theorem Shows.write {β : Type} {f : Nat × α → β} {xs : Array β}
    (h : Shows f cols entries done xs) (hsplit : entries = done ++ e :: rest) (he : e.col < cols)
    (hsize : xs.size = (columnsOf cols entries).flatten.length) :
    Shows f cols entries (done ++ [e])
      (xs.setIfInBounds (startOf (columnsOf cols entries) e.col + (columnOf done e.col).length)
        (f (e.row, e.value))) := by
  intro j hj r t ht
  rw [columnOf_append] at ht
  by_cases hr : r < (columnOf done j).length
  · rw [List.getElem?_append_left hr] at ht
    rw [Array.getElem?_setIfInBounds_ne (cursor_ne hsplit he hj hr)]
    exact h j hj r t ht
  · rw [List.getElem?_append_right (Nat.le_of_not_lt hr), columnOf_singleton] at ht
    by_cases hej : e.col = j
    · subst hej
      rw [if_pos rfl, List.getElem?_singleton] at ht
      split at ht
      case isTrue hzero =>
        cases ht
        have hr' : r = (columnOf done e.col).length := by omega
        rw [hr', Array.getElem?_setIfInBounds_self_of_lt]
        rw [hsize]
        exact cursor_lt hsplit he
      case isFalse hpos => cases ht
    · rw [if_neg hej] at ht
      cases ht

theorem Filling.place (h : Filling rows cols entries done A) (hsplit : entries = done ++ e :: rest)
    (he : e.col < cols) :
    ∃ B, A.placeEntry? e.row e.col e.value = some B ∧
      Filling rows cols entries (done ++ [e]) B := by
  have hlt := cursor_lt hsplit he
  unfold placeEntry?
  rw [h.cursor e.col (Nat.le_of_lt he)]
  simp only [Option.bind_eq_bind, Option.bind_some, h.size_rowIndex, h.size_value, hlt, and_self,
    if_true]
  refine ⟨_, rfl, h.rows_eq, h.cols_eq, ?_, ?_, ?_, ?_, ?_, ?_⟩
  · simpa using h.size_colStart
  · simpa using h.size_rowIndex
  · simpa using h.size_value
  · intro j hj
    rw [columnOf_append, columnOf_singleton]
    by_cases hej : e.col = j
    · subst hej
      simp [h.size_colStart, Nat.lt_succ_of_le hj, Nat.add_assoc]
    · simp [hej, h.cursor j hj]
  · exact h.rowIndex.write hsplit he h.size_rowIndex
  · exact h.value.write hsplit he h.size_value

theorem Shows.eq {β : Type} {f : Nat × α → β} {xs : Array β}
    (h : Shows f cols entries entries xs)
    (hsize : xs.size = (columnsOf cols entries).flatten.length) :
    xs = ((columnsOf cols entries).flatten.map f).toArray := by
  apply Array.ext_getElem?
  intro i
  by_cases hi : i < (columnsOf cols entries).flatten.length
  · obtain ⟨j, r, hj, hr, rfl⟩ := exists_startOf_add hi
    have hj' : j < cols := by simpa using hj
    have hget : (columnOf entries j)[r]? = some (columnsOf cols entries)[j][r] := by
      rw [List.getElem?_eq_some_iff]
      refine ⟨by rwa [getElem_columnsOf] at hr, ?_⟩
      simp only [getElem_columnsOf]
    rw [h j hj' r _ hget, List.getElem?_toArray, List.getElem?_map, getElem?_flatten_startOf hj hr,
      Option.map_some]
  · rw [Array.getElem?_eq_none (by omega), List.getElem?_toArray,
      List.getElem?_eq_none (by rw [List.length_map]; omega)]

/-- A filled matrix, its cursors moved back, is the matrix with the given columns. -/
theorem Filling.shiftStartsBack_eq (h : Filling rows cols entries entries A) :
    A.shiftStartsBack = ofColumns rows (columnsOf cols entries) := by
  have hstarts : #[0] ++ A.colStart.pop =
      ((List.range ((columnsOf cols entries).length + 1)).map
        (startOf (columnsOf cols entries))).toArray := by
    apply Array.ext_getElem?
    intro j
    cases j with
    | zero =>
        rw [Array.getElem?_append_left (Nat.one_pos)]
        simp
    | succ j =>
        by_cases hj : j < cols
        · have hlen : j < (columnsOf cols entries).length := by simpa using hj
          -- behind its last entry, the cursor of a column is the start of the next
          have hnext := startOf_succ hlen
          rw [getElem_columnsOf] at hnext
          have hcursor := h.cursor j (Nat.le_of_lt hj)
          rw [← hnext] at hcursor
          have hsize : j < A.colStart.size := by
            rw [h.size_colStart]
            omega
          rw [Array.getElem?_eq_getElem hsize, Option.some.injEq] at hcursor
          simp [Array.getElem?_append, h.size_colStart, hj, hcursor]
        · simp [Array.getElem?_append, h.size_colStart, hj]
  have hrow := h.rowIndex.eq h.size_rowIndex
  have hvalue := h.value.eq h.size_value
  rw [shiftStartsBack, hstarts, ofColumns, ← hrow, ← hvalue, length_columnsOf, ← h.cols_eq,
    ← h.rows_eq]

/-! ### The slots of an assembly -/

/-- None of the entries that have been placed stands in the slot. -/
def Unwritten (cols : Nat) (entries done : List (Entry α)) (slot : Nat) : Prop :=
  ∀ j < cols, ∀ r < (columnOf done j).length, slot ≠ startOf (columnsOf cols entries) j + r

/-- The entries that are left go to slots of their own. -/
theorem Filling.exists_writes (h : Filling rows cols entries done A)
    (hsplit : entries = done ++ rest) (hcol : ∀ e ∈ rest, e.col < cols) :
    ∃ slots B, A.Writes rest slots B ∧ Filling rows cols entries entries B ∧ slots.Nodup ∧
      ∀ slot ∈ slots, slot < (columnsOf cols entries).flatten.length ∧
        Unwritten cols entries done slot := by
  induction rest generalizing done A with
  | nil =>
      rw [List.append_nil] at hsplit
      subst hsplit
      exact ⟨[], A, .nil, h, .nil, nofun⟩
  | cons e rest ih =>
      have he := hcol e List.mem_cons_self
      obtain ⟨B, hB, hfill⟩ := h.place hsplit he
      obtain ⟨slot, hwritten⟩ := exists_written hB
      have hsplit' : entries = done ++ [e] ++ rest := by
        rw [hsplit, List.append_assoc, List.singleton_append]
      obtain ⟨slots, C, hwrites, hdone, hnodup, hslots⟩ :=
        ih hfill hsplit' fun e' he' => hcol e' (List.mem_cons_of_mem e he')
      have hslot : slot = startOf (columnsOf cols entries) e.col + (columnOf done e.col).length :=
        Option.some.inj (hwritten.cursor.symm.trans (h.cursor e.col (Nat.le_of_lt he)))
      have hlen (j : Nat) : (columnOf (done ++ [e]) j).length =
          (columnOf done j).length + (columnOf [e] j).length := by
        rw [columnOf_append, List.length_append]
      -- the slots that come later are free of this entry too
      have hfresh : slot ∉ slots := by
        intro hmem
        refine (hslots slot hmem).2 e.col he (columnOf done e.col).length ?_ hslot
        rw [hlen, columnOf_singleton, if_pos rfl]
        exact Nat.lt_succ_self _
      refine ⟨slot :: slots, C, .cons hwritten hwrites, hdone,
        List.nodup_cons.2 ⟨hfresh, hnodup⟩, ?_⟩
      rw [List.forall_mem_cons]
      constructor
      · refine ⟨hslot ▸ cursor_lt hsplit he, ?_⟩
        intro j hj r hr
        rw [hslot]
        exact cursor_ne hsplit he hj hr
      · intro slot' hmem
        obtain ⟨hlt, hunwritten⟩ := hslots slot' hmem
        refine ⟨hlt, ?_⟩
        intro j hj r hr
        refine hunwritten j hj r ?_
        rw [hlen]
        exact Nat.lt_add_right _ hr

end CscMatrix

end Socp
