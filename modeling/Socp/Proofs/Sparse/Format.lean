import Socp.Proofs.Sparse.Lookup

/-!
What the test for the column format accepts. It never reads outside the arrays, and what passes it
holds columns that follow one another up to the end of the arrays. The test does not ask where the
first column starts. Entries before that place belong to no column, so the columns are all that is
stored only if the first of them starts at zero.
-/

namespace Socp

namespace CscMatrix

variable {α : Type}

/-! ### Matrices stored by columns -/

/-- Columns start at `first`, never go back, and reach the end of both arrays. -/
structure Framed (A : CscMatrix α) (first : Nat) : Prop where
  sizes : A.rowIndex.size = A.value.size
  starts : A.colStart.size = A.cols + 1
  start_first : A.colStart[0]? = some first
  start_last : A.colStart[A.cols]? = some A.rowIndex.size
  starts_le : A.colStart.toList.Pairwise (· ≤ ·)

/-- A column has its rows in increasing order. -/
def RowsIncrease (A : CscMatrix α) (j : Nat) : Prop :=
  ∀ {p q}, A.colStart[j]? = some p → A.colStart[j + 1]? = some q →
    ∀ {i i' r r'}, p ≤ i → i < i' → i' < q →
      A.rowIndex[i]? = some r → A.rowIndex[i']? = some r' → r < r'

/-- The arrays hold a matrix by columns from the position `first` on. -/
structure StoredFrom (A : CscMatrix α) (first : Nat) : Prop extends A.Framed first where
  rows_increase : ∀ j < A.cols, A.RowsIncrease j
  rows_lt : ∀ r ∈ A.rowIndex, r < A.rows

/-- The stored pairs, whatever column they belong to. -/
def entries (A : CscMatrix α) : List (Nat × α) := A.rowIndex.toList.zip A.value.toList

namespace Framed

variable {A : CscMatrix α} {first : Nat}

theorem length_entries (h : A.Framed first) : A.entries.length = A.rowIndex.size := by
  simp [entries, ← h.sizes]

theorem start_le (h : A.Framed first) {j k p q : Nat} (hjk : j ≤ k) (hp : A.colStart[j]? = some p)
    (hq : A.colStart[k]? = some q) : p ≤ q := by
  obtain ⟨hj, rfl⟩ := Array.getElem?_eq_some_iff.1 hp
  obtain ⟨hk, rfl⟩ := Array.getElem?_eq_some_iff.1 hq
  rcases Nat.lt_or_eq_of_le hjk with hlt | heq
  · exact List.pairwise_iff_getElem.1 h.starts_le j k hj hk hlt
  · simp [heq]

theorem exists_starts (h : A.Framed first) {j : Nat} (hj : j < A.cols) :
    ∃ p q, A.colStart[j]? = some p ∧ A.colStart[j + 1]? = some q ∧ p ≤ q ∧
      q ≤ A.rowIndex.size := by
  have hstarts := h.starts
  have hp : A.colStart[j]? = some A.colStart[j] := Array.getElem?_eq_getElem (by omega)
  have hq : A.colStart[j + 1]? = some A.colStart[j + 1] := Array.getElem?_eq_getElem (by omega)
  exact ⟨_, _, hp, hq, h.start_le (Nat.le_succ j) hp hq,
    h.start_le (Nat.succ_le_of_lt hj) hq h.start_last⟩

theorem column?_eq (h : A.Framed first) {j p q : Nat} (hp : A.colStart[j]? = some p)
    (hq : A.colStart[j + 1]? = some q) (hpq : p ≤ q) (hsize : q ≤ A.rowIndex.size) :
    A.column? j = some ((A.entries.drop p).take (q - p)) := by
  have hrows : slice? A.rowIndex p q = some (A.rowIndex.extract p q) := if_pos ⟨hpq, hsize⟩
  have hvalues : slice? A.value p q = some (A.value.extract p q) := if_pos ⟨hpq, h.sizes ▸ hsize⟩
  rw [column?, hp, hq]
  simp only [Option.bind_eq_bind, Option.bind_some, hrows, hvalues, Option.pure_def, entries]
  simp [List.extract_eq_take_drop, List.zip, List.drop_zipWith, List.take_zipWith]

/-- The columns before column `j` hold the stored pairs up to its start. -/
theorem exists_columns (h : A.Framed first) {j p : Nat} (hp : A.colStart[j]? = some p) :
    ∃ columns, (List.range j).mapM A.column? = some columns ∧
      columns.flatten = (A.entries.drop first).take (p - first) := by
  induction j generalizing p with
  | zero =>
      have hfirst : p = first := Option.some.inj (hp.symm.trans h.start_first)
      exact ⟨[], rfl, by simp [hfirst]⟩
  | succ j ih =>
      have hj : j < A.cols := by
        have hlt := (Array.getElem?_eq_some_iff.1 hp).1
        have hstarts := h.starts
        omega
      obtain ⟨p', q, hp', hq, hle, hsize⟩ := h.exists_starts hj
      obtain rfl : p = q := Option.some.inj (hp.symm.trans hq)
      obtain ⟨columns, hcolumns, hflatten⟩ := ih hp'
      have hfirst := h.start_le (Nat.zero_le j) h.start_first hp'
      refine ⟨columns ++ [(A.entries.drop p').take (p - p')], ?_, ?_⟩
      · rw [List.range_succ, List.mapM_append, hcolumns, List.mapM_cons,
          h.column?_eq hp' hq hle hsize]
        rfl
      · -- the stretch up to the next start is the one up to this start and the column itself
        have hsplit : p - first = (p' - first) + (p - p') := by omega
        have hstart : first + (p' - first) = p' := by omega
        rw [List.flatten_append, hflatten, hsplit, List.take_add, List.drop_drop, hstart,
          List.flatten_singleton]

end Framed

/-! ### The test -/

theorem pairwise_extract_iff {xs : Array Nat} {p q : Nat} (hsize : q ≤ xs.size) :
    (xs.extract p q).toList.Pairwise (· < ·) ↔ ∀ {i i' r r'}, p ≤ i → i < i' → i' < q →
      xs[i]? = some r → xs[i']? = some r' → r < r' := by
  rw [List.pairwise_iff_getElem]
  constructor
  · intro h i i' r r' hi hlt hi' hr hr'
    obtain ⟨hi₁, rfl⟩ := Array.getElem?_eq_some_iff.1 hr
    obtain ⟨hi₂, rfl⟩ := Array.getElem?_eq_some_iff.1 hr'
    have hrows := h (i - p) (i' - p) (by simp; omega) (by simp; omega) (by omega)
    simp only [Array.getElem_toList, Array.getElem_extract, Nat.add_sub_cancel' hi,
      Nat.add_sub_cancel' (Nat.le_trans hi (Nat.le_of_lt hlt))] at hrows
    exact hrows
  · intro h i i' hi hi' hlt
    simp only [Array.length_toList, Array.size_extract] at hi hi'
    have hbound : p + i' < xs.size := by omega
    simp only [Array.getElem_toList, Array.getElem_extract]
    exact @h (p + i) (p + i') _ _ (by omega) (by omega) (by omega)
      (Array.getElem?_eq_getElem (by omega)) (Array.getElem?_eq_getElem hbound)

theorem disordered?_cons {A : CscMatrix α} {col : Nat} {cols : List Nat} {b c : Bool}
    (hb : A.columnDisordered? col = some b) (hc : A.disordered? cols = some c) :
    A.disordered? (col :: cols) = some (b || c) := by
  rw [disordered?, hb]
  cases b
  · exact hc
  · rfl

namespace Framed

variable {A : CscMatrix α} {first : Nat}

theorem disordered?_eq (h : A.Framed first) {cols : List Nat} (hcols : ∀ j ∈ cols, j < A.cols) :
    ∃ b, A.disordered? cols = some b ∧ (b = false ↔ ∀ j ∈ cols, A.RowsIncrease j) := by
  induction cols with
  | nil => exact ⟨false, rfl, by simp⟩
  | cons j cols ih =>
      obtain ⟨c, hc, hciff⟩ := ih fun j' hj' => hcols j' (List.mem_cons_of_mem j hj')
      obtain ⟨p, q, hp, hq, hpq, hsize⟩ := h.exists_starts (hcols j List.mem_cons_self)
      have hslice : slice? A.rowIndex p q = some (A.rowIndex.extract p q) := if_pos ⟨hpq, hsize⟩
      have hb : A.columnDisordered? j =
          some (neighboursAny (fun r s => s ≤ r) (A.rowIndex.extract p q).toList) := by
        rw [columnDisordered?, hp, hq]
        simp only [Option.bind_eq_bind, Option.bind_some, hslice, Option.pure_def]
      refine ⟨_, disordered?_cons hb hc, ?_⟩
      rw [Bool.or_eq_false_iff, rows_increase_iff, pairwise_extract_iff hsize, hciff,
        List.forall_mem_cons]
      refine and_congr_left' ?_
      constructor
      · intro hrows p' q' hp' hq'
        obtain rfl := Option.some.inj (hp.symm.trans hp')
        obtain rfl := Option.some.inj (hq.symm.trans hq')
        exact hrows
      · exact fun hrows => hrows hp hq

/-- Within the frame, only rows are left to find fault with. -/
theorem checkFormat?_eq (h : A.Framed first) :
    ∃ e, A.checkFormat? = some e ∧ (e = .ok () ↔ A.StoredFrom first) := by
  have hcols : ∀ j ∈ List.range A.cols, j < A.cols := fun j => List.mem_range.1
  obtain ⟨b, hb, hbiff⟩ := h.disordered?_eq hcols
  have hstarts : neighboursAny (fun p q => decide (q < p)) A.colStart.toList = false := by
    rw [neighboursAny_eq_false_iff]
    refine h.starts_le.isChain.imp ?_
    simp
  have hnonempty : A.colStart.isEmpty = false := by
    simp [Array.isEmpty, h.starts]
  have hcheck : A.checkFormat? =
      some (if b || A.rowIndex.any (A.rows ≤ ·) then .error .badRowIndex else .ok ()) := by
    rw [checkFormat?, if_neg (not_not_intro h.sizes), h.start_last, hb, hstarts, hnonempty]
    cases b <;> cases A.rowIndex.any (A.rows ≤ ·) <;> simp [h.starts]
  refine ⟨_, hcheck, ?_⟩
  have hrows : A.rowIndex.any (A.rows ≤ ·) = false ↔ ∀ r ∈ A.rowIndex, r < A.rows := by
    rw [Array.any_eq_false']
    simp
  constructor
  · intro hok
    have hfine : (b || A.rowIndex.any (A.rows ≤ ·)) = false := by
      rw [← Bool.not_eq_true]
      intro hbad
      rw [if_pos hbad] at hok
      cases hok
    rw [Bool.or_eq_false_iff, hbiff, hrows] at hfine
    have hrows_increase : ∀ j < A.cols, A.RowsIncrease j := fun j hj =>
      hfine.1 j (List.mem_range.2 hj)
    exact { h with rows_increase := hrows_increase, rows_lt := hfine.2 }
  · intro hstored
    have hb' : b = false := hbiff.2 fun j hj => hstored.rows_increase j (List.mem_range.1 hj)
    rw [hb', hrows.2 hstored.rows_lt]
    rfl

end Framed

/-- Outside of a frame the test stops before it reads a row. -/
theorem framed_or_error (A : CscMatrix α) :
    (∃ first, A.Framed first) ∨ ∃ e, A.checkFormat? = some (.error e) := by
  rw [checkFormat?]
  by_cases hsizes : A.rowIndex.size = A.value.size
  case neg => exact .inr ⟨_, if_pos hsizes⟩
  rw [if_neg (not_not_intro hsizes)]
  have hlength : (A.colStart.isEmpty || decide (A.colStart.size - 1 ≠ A.cols)) = true ↔
      A.colStart.size ≠ A.cols + 1 := by
    rw [Bool.or_eq_true, Array.isEmpty_iff_size_eq_zero, decide_eq_true_iff]
    omega
  by_cases hstarts : A.colStart.size = A.cols + 1
  case neg => exact .inr ⟨_, if_pos (hlength.2 hstarts)⟩
  rw [if_neg (mt hlength.1 (not_not_intro hstarts))]
  obtain ⟨last, hlast⟩ : ∃ last, A.colStart[A.cols]? = some last :=
    ⟨_, Array.getElem?_eq_getElem (by omega)⟩
  rw [hlast, Option.bind_eq_bind, Option.bind_some]
  by_cases hend : last = A.rowIndex.size
  case neg => exact .inr ⟨_, if_pos hend⟩
  rw [if_neg (not_not_intro hend)]
  cases hmono : neighboursAny (fun p q => decide (q < p)) A.colStart.toList with
  | true => exact .inr ⟨_, rfl⟩
  | false =>
      rw [neighboursAny_eq_false_iff] at hmono
      refine .inl ⟨A.colStart[0], hsizes, hstarts, Array.getElem?_eq_getElem _, hend ▸ hlast, ?_⟩
      refine List.isChain_iff_pairwise.1 (hmono.imp ?_)
      simp

/-! ### What passes -/

/-- What the test accepts are the matrices stored from some position on. -/
theorem wellFormed_iff {A : CscMatrix α} : A.WellFormed ↔ ∃ first, A.StoredFrom first := by
  rw [WellFormed]
  constructor
  · intro hok
    obtain ⟨first, h⟩ | ⟨e, he⟩ := A.framed_or_error
    · obtain ⟨e, he, hiff⟩ := h.checkFormat?_eq
      exact ⟨first, hiff.1 (Option.some.inj (he.symm.trans hok))⟩
    · rw [hok] at he
      cases he
  · rintro ⟨first, h⟩
    obtain ⟨e, he, hiff⟩ := h.checkFormat?_eq
    rw [he, hiff.2 h]

theorem isSome_checkFormat? (A : CscMatrix α) : A.checkFormat?.isSome := by
  obtain ⟨first, h⟩ | ⟨e, he⟩ := A.framed_or_error
  · obtain ⟨e, he, -⟩ := h.checkFormat?_eq
    rw [he]
    rfl
  · rw [he]
    rfl

theorem Framed.exists_all_columns {A : CscMatrix α} {first : Nat} (h : A.Framed first) :
    ∃ columns, (List.range A.cols).mapM A.column? = some columns ∧
      columns.flatten = A.entries.drop first ∧ A.nnz? = some (first + columns.flatten.length) := by
  obtain ⟨columns, hcolumns, hflatten⟩ := h.exists_columns h.start_last
  have hlength := h.length_entries
  have hfirst : first ≤ A.rowIndex.size := h.start_le (Nat.zero_le _) h.start_first h.start_last
  have hall : (A.entries.drop first).take (A.rowIndex.size - first) = A.entries.drop first := by
    rw [List.take_of_length_le]
    rw [List.length_drop, hlength]
  rw [hall] at hflatten
  refine ⟨columns, hcolumns, hflatten, ?_⟩
  rw [hflatten, List.length_drop, hlength, Nat.add_sub_cancel' hfirst]
  exact h.start_last

/-- The test answers for any arrays. It accepts those that hold columns from some position on, and
the columns are all that is stored if and only if this position is zero: what lies before it counts
as stored and belongs to no column. -/
theorem accepts_iff_storedFrom (A : CscMatrix α) :
    A.checkFormat?.isSome ∧
      (A.checkFormat? = some (.ok ()) ↔ ∃ first, A.StoredFrom first) ∧
      (A.StoredFrom 0 ↔ A.checkFormat? = some (.ok ()) ∧ ∃ columns,
        (List.range A.cols).mapM A.column? = some columns ∧ columns.flatten = A.entries) ∧
      ∀ first, A.StoredFrom first → ∃ columns,
        (List.range A.cols).mapM A.column? = some columns ∧
        columns.flatten = A.entries.drop first ∧
        A.nnz? = some (first + columns.flatten.length) := by
  refine ⟨A.isSome_checkFormat?, wellFormed_iff, ?_, fun first h => h.exists_all_columns⟩
  constructor
  · intro h
    obtain ⟨columns, hcolumns, hflatten, -⟩ := h.exists_all_columns
    exact ⟨wellFormed_iff.2 ⟨0, h⟩, columns, hcolumns, hflatten⟩
  · rintro ⟨hok, columns, hcolumns, hflatten⟩
    obtain ⟨first, h⟩ := wellFormed_iff.1 hok
    obtain ⟨columns', hcolumns', hflatten', hnnz⟩ := h.exists_all_columns
    obtain rfl := Option.some.inj (hcolumns.symm.trans hcolumns')
    -- the columns have as many entries as the arrays, so the first start adds nothing
    have hlast : A.nnz? = some A.entries.length := by
      rw [h.length_entries]
      exact h.start_last
    have hcount := Option.some.inj (hlast.symm.trans hnnz)
    rw [hflatten] at hcount
    obtain rfl : first = 0 := by omega
    exact h

/-- One entry is stored where no column is, and the matrix passes. -/
theorem accepts_late_start :
    let A : CscMatrix Int := ⟨1, 1, #[1, 1], #[0], #[5]⟩
    A.checkFormat? = some (.ok ()) ∧ A.StoredFrom 1 ∧ ¬A.StoredFrom 0 ∧ A.entries = [(0, 5)] ∧
      A.column? 0 = some [] ∧ ∃ columns, (List.range 1).mapM A.column? = some columns ∧
        columns.flatten = A.entries.drop 1 ∧ A.nnz? = some (1 + columns.flatten.length) := by
  intro A
  have hok : A.checkFormat? = some (.ok ()) := by decide +kernel
  have hstored : A.StoredFrom 1 := by
    obtain ⟨first, h⟩ := (accepts_iff_storedFrom A).2.1.1 hok
    obtain rfl : 1 = first := Option.some.inj h.start_first
    exact h
  refine ⟨hok, hstored, ?_, rfl, by decide +kernel, (accepts_iff_storedFrom A).2.2.2 1 hstored⟩
  intro h
  cases h.start_first

end CscMatrix

end Socp
