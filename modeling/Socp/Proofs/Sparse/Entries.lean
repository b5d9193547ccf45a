import Socp.Proofs.Sparse.Format

/-!
Single entries of a matrix that passes the test for its format. Its columns can be read and their
rows increase, so halving finds a row exactly where its column has it, and none has a row twice.
-/

namespace Socp

namespace CscMatrix

variable {α : Type}

/-! ### Columns that can be read -/

/-- The pairs of a column, none if the column cannot be read. -/
def columnAt (A : CscMatrix α) (j : Nat) : List (Nat × α) := (A.column? j).getD []

namespace StoredFrom

variable {A : CscMatrix α} {first j : Nat}

theorem exists_columnAt (h : A.StoredFrom first) (hj : j < A.cols) :
    ∃ p q, A.colStart[j]? = some p ∧ A.colStart[j + 1]? = some q ∧ p ≤ q ∧
      q ≤ A.rowIndex.size ∧ A.column? j = some (A.columnAt j) ∧
      (A.columnAt j).map (·.1) = (A.rowIndex.extract p q).toList := by
  obtain ⟨p, q, hp, hq, hpq, hsize⟩ := h.exists_starts hj
  have hcolumn := h.column?_eq hp hq hpq hsize
  have hat : A.columnAt j = (A.entries.drop p).take (q - p) := by
    rw [columnAt, hcolumn, Option.getD_some]
  have hkeys : A.entries.map (·.1) = A.rowIndex.toList := List.map_fst_zip (by simp [h.sizes])
  refine ⟨p, q, hp, hq, hpq, hsize, hat ▸ hcolumn, ?_⟩
  rw [hat, List.map_take, List.map_drop, hkeys, Array.toList_extract, List.extract_eq_take_drop]

theorem column?_eq_columnAt (h : A.StoredFrom first) (hj : j < A.cols) :
    A.column? j = some (A.columnAt j) := by
  obtain ⟨p, q, -, -, -, -, hcolumn, -⟩ := h.exists_columnAt hj
  exact hcolumn

theorem sorted_columnAt (h : A.StoredFrom first) (hj : j < A.cols) :
    (A.columnAt j).Pairwise fun s t => s.1 < t.1 := by
  obtain ⟨p, q, hp, hq, -, hsize, -, hkeys⟩ := h.exists_columnAt hj
  rw [← List.pairwise_map, hkeys, pairwise_extract_iff hsize]
  exact h.rows_increase j hj hp hq

theorem nodup_keys_columnAt (h : A.StoredFrom first) (hj : j < A.cols) :
    ((A.columnAt j).map (·.1)).Nodup := by
  rw [List.nodup_iff_pairwise_ne, List.pairwise_map]
  exact (h.sorted_columnAt hj).imp Nat.ne_of_lt

theorem lt_of_mem_columnAt (h : A.StoredFrom first) (hj : j < A.cols) :
    ∀ t ∈ A.columnAt j, t.1 < A.rows := by
  obtain ⟨p, q, -, -, -, -, -, hkeys⟩ := h.exists_columnAt hj
  intro t ht
  have hmem : t.1 ∈ (A.rowIndex.extract p q).toList := hkeys ▸ List.mem_map_of_mem ht
  obtain ⟨i, hi, hget⟩ := Array.mem_extract_iff_getElem.1 (Array.mem_toList_iff.1 hmem)
  exact h.rows_lt t.1 (hget ▸ Array.getElem_mem _)

theorem entry?_eq (h : A.StoredFrom first) {r : Nat} (hr : r < A.rows) (hj : j < A.cols) :
    A.entry? r j = some ((A.columnAt j).lookup r) :=
  entry?_eq_lookup hr hj (h.column?_eq_columnAt hj) (h.sorted_columnAt hj)

end StoredFrom

/-! ### Looking up -/

/-- For a place inside the matrix, the look-up answers with the value that the column has for the
row, which it has at most once. It breaks off for a place outside. -/
theorem entry?_iff_mem_column {A : CscMatrix α} (hA : A.WellFormed) (row col : Nat) :
    (row < A.rows ∧ col < A.cols → ∃ c found,
      A.column? col = some c ∧ A.entry? row col = some found ∧
      (∀ a, found = some a ↔ (row, a) ∈ c) ∧
      (∀ a, (row, a) ∈ c → c.filter (·.1 = row) = [(row, a)]) ∧
      (found = none ↔ ∀ a, (row, a) ∉ c)) ∧
    (¬(row < A.rows ∧ col < A.cols) → A.entry? row col = none) := by
  obtain ⟨first, h⟩ := wellFormed_iff.1 hA
  refine ⟨?_, fun hout => if_neg hout⟩
  rintro ⟨hrow, hcol⟩
  have hkeys := h.nodup_keys_columnAt hcol
  have hmem : ∀ a, (A.columnAt col).lookup row = some a ↔ (row, a) ∈ A.columnAt col := fun a =>
    lookup_eq_some_iff_mem hkeys
  refine ⟨_, _, h.column?_eq_columnAt hcol, h.entry?_eq hrow hcol, hmem, ?_, ?_⟩
  · intro a ha
    rw [filter_eq_map_lookup hkeys, (hmem a).2 ha]
    rfl
  · rw [Option.eq_none_iff_forall_ne_some]
    exact forall_congr' fun a => not_congr (hmem a)

/-- A zero that is stored, a row that is left out between two others, and a row too many. -/
theorem entry?_iff_mem_column_with_gaps :
    let A : CscMatrix Int := ⟨6, 3, #[0, 4, 4, 5], #[0, 2, 3, 5, 2], #[4, -1, 0, 7, 5]⟩
    A.WellFormed ∧ A.entry? 3 0 = some (some 0) ∧ A.entry? 4 0 = some none ∧ A.entry? 6 0 = none ∧
      ∃ c found, A.column? 0 = some c ∧ A.entry? 3 0 = some found ∧
        (∀ a, found = some a ↔ (3, a) ∈ c) ∧
        (∀ a, (3, a) ∈ c → c.filter (·.1 = 3) = [(3, a)]) ∧
        (found = none ↔ ∀ a, (3, a) ∉ c) := by
  intro A
  have hA : A.WellFormed := by decide +kernel
  exact ⟨hA, by decide +kernel, by decide +kernel, (entry?_iff_mem_column hA 6 0).2 (by decide),
    (entry?_iff_mem_column hA 3 0).1 (by decide)⟩

end CscMatrix

end Socp
