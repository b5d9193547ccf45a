import Socp.Proofs.Lists
import Socp.Proofs.Sparse.Columns
import Socp.Sparse.Lookup

/-!
Halving finds a row in its column. The window always holds the position of the key, if the sorted
keys have it at all, so what is left at the end decides between a stored value and none.
-/

namespace Socp

/-! ### Positions of keys -/

theorem getElem_le_of_sorted {keys : Array Nat} (hsorted : keys.toList.Pairwise (· < ·)) {i j : Nat}
    (hij : i ≤ j) (hj : j < keys.size) : keys[i] ≤ keys[j] := by
  rcases Nat.lt_or_eq_of_le hij with hlt | rfl
  · have hi : i < keys.size := Nat.lt_trans hlt hj
    exact Nat.le_of_lt (List.pairwise_iff_getElem.1 hsorted i j hi hj hlt)
  · exact Nat.le_refl _

/-- A key inside the window is what the window narrows to. -/
theorem bisect_eq {keys : Array Nat} (hsorted : keys.toList.Pairwise (· < ·))
    {key base size i : Nat} {h : base + size ≤ keys.size} (hbase : base ≤ i)
    (hsize : i < base + size) (hi : keys[i] = key) : bisect keys key base size h = i := by
  fun_induction bisect keys key base size h with
  | case1 base size h hs => omega
  | case2 base size h hs half hlt hkey ih =>
      have hhalf : half = size / 2 := rfl
      -- a key at or behind the middle would not be below the one in the middle
      have hbefore : i < base + half := by
        apply Nat.lt_of_not_le
        intro hle
        have hmono := getElem_le_of_sorted hsorted hle (Nat.lt_of_lt_of_le hsize h)
        omega
      exact ih hbase (by omega) hi
  | case3 base size h hs half hlt hkey ih =>
      have hhalf : half = size / 2 := rfl
      -- the key in the middle may be the one sought, so the window keeps it
      have hbehind : base + half ≤ i := by
        apply Nat.le_of_not_lt
        intro hlt'
        have hne : keys[i] < keys[base + half] :=
          List.pairwise_iff_getElem.1 hsorted i (base + half) (Nat.lt_trans hlt' hlt) hlt hlt'
        omega
      exact ih hbehind (by omega) hi

theorem bisectPosition?_eq_some {keys : Array Nat} (hsorted : keys.toList.Pairwise (· < ·))
    {key i : Nat} (hi : keys[i]? = some key) : bisectPosition? keys key = some i := by
  obtain ⟨hlt, hget⟩ := Array.getElem?_eq_some_iff.1 hi
  have hfound : bisect keys key 0 keys.size (by omega) = i :=
    bisect_eq hsorted (Nat.zero_le i) (by omega) hget
  rw [bisectPosition?]
  simp only [hfound, hi, if_true]

theorem bisectPosition?_eq_none {keys : Array Nat} {key : Nat} (hkey : key ∉ keys) :
    bisectPosition? keys key = none := by
  rw [bisectPosition?]
  refine if_neg ?_
  intro hget
  exact hkey (Array.mem_of_getElem? hget)

theorem lookup_zip_getElem {κ β : Type} [DecidableEq κ] {keys : List κ} {values : List β}
    (hnodup : keys.Nodup) (hlen : keys.length = values.length) {k : κ} {b : β} {i : Nat}
    (hk : keys[i]? = some k) (hb : values[i]? = some b) :
    (keys.zip values).lookup k = some b := by
  have hkeys : (keys.zip values).map (·.1) = keys := List.map_fst_zip (Nat.le_of_eq hlen)
  rw [lookup_eq_some_iff_mem (hkeys.symm ▸ hnodup), List.mem_iff_getElem?]
  refine ⟨i, ?_⟩
  rw [List.getElem?_zip_eq_some]
  exact ⟨hk, hb⟩

theorem lookup_zip_of_not_mem {κ β : Type} [DecidableEq κ] {keys : List κ} {values : List β}
    {k : κ} (hk : k ∉ keys) : (keys.zip values).lookup k = none := by
  rw [List.lookup_eq_none_iff]
  intro t ht
  have hne : k ≠ t.1 := fun heq => hk (heq ▸ (List.of_mem_zip ht).1)
  simpa using hne

namespace CscMatrix

variable {α : Type}

/-! ### Entries -/

theorem slice?_eq_some_iff {β : Type} {xs ys : Array β} {first last : Nat} :
    slice? xs first last = some ys ↔
      (first ≤ last ∧ last ≤ xs.size) ∧ xs.extract first last = ys := by
  rw [slice?]
  split
  case isTrue h => simp [h]
  case isFalse h => simp [h]

theorem column?_eq_some {A : CscMatrix α} {col : Nat} {c : List (Nat × α)}
    (h : A.column? col = some c) :
    ∃ first last rows values, A.colStart[col]? = some first ∧ A.colStart[col + 1]? = some last ∧
      slice? A.rowIndex first last = some rows ∧ slice? A.value first last = some values ∧
      rows.toList.zip values.toList = c := by
  simp only [column?, Option.bind_eq_bind, Option.bind_eq_some_iff, Option.pure_def,
    Option.some.injEq] at h
  obtain ⟨first, hfirst, last, hlast, rows, hrows, values, hvalues, hc⟩ := h
  exact ⟨first, last, rows, values, hfirst, hlast, hrows, hvalues, hc⟩

theorem getElem?_of_slice? {β : Type} {xs ys : Array β} {first last i : Nat}
    (h : slice? xs first last = some ys) (hi : i < ys.size) : xs[first + i]? = some ys[i] := by
  obtain ⟨-, rfl⟩ := slice?_eq_some_iff.1 h
  have hlt : i < min last xs.size - first := by rwa [Array.size_extract] at hi
  have hextract : (xs.extract first last)[i]? = xs[first + i]? := by
    rw [Array.getElem?_extract, if_pos hlt]
  rw [← hextract, Array.getElem?_eq_getElem hi]

theorem size_of_slice? {β : Type} {xs ys : Array β} {first last : Nat}
    (h : slice? xs first last = some ys) : ys.size = last - first := by
  obtain ⟨⟨-, hle⟩, rfl⟩ := slice?_eq_some_iff.1 h
  rw [Array.size_extract, Nat.min_eq_left hle]

/-- In a column whose rows increase, a row is found exactly where it is stored. -/
theorem entry?_eq_lookup {A : CscMatrix α} {row col : Nat} {c : List (Nat × α)}
    (hrow : row < A.rows) (hcol : col < A.cols) (hcolumn : A.column? col = some c)
    (hsorted : c.Pairwise fun s t => s.1 < t.1) : A.entry? row col = some (c.lookup row) := by
  obtain ⟨first, last, rows, values, hfirst, hlast, hrows, hvalues, rfl⟩ :=
    column?_eq_some hcolumn
  have hsize : rows.size = values.size := (size_of_slice? hrows).trans (size_of_slice? hvalues).symm
  have hkeys : (rows.toList.zip values.toList).map (·.1) = rows.toList :=
    List.map_fst_zip (by simp [hsize])
  have hincreasing : rows.toList.Pairwise (· < ·) := by
    rw [← hkeys, List.pairwise_map]
    exact hsorted
  unfold entry?
  rw [if_pos ⟨hrow, hcol⟩, hfirst, hlast]
  simp only [Option.bind_eq_bind, Option.bind_some, hrows]
  by_cases hmem : row ∈ rows
  · -- the position in the slice is the position of the value behind the start of the column
    obtain ⟨i, hi, hget⟩ := Array.mem_iff_getElem.1 hmem
    have hi' : i < values.size := hsize ▸ hi
    have hrow' : rows[i]? = some row := Array.getElem?_eq_some_iff.2 ⟨hi, hget⟩
    have hvalue : A.value[first + i]? = some values[i] := getElem?_of_slice? hvalues hi'
    have hlookup : (rows.toList.zip values.toList).lookup row = some values[i] := by
      apply lookup_zip_getElem (hincreasing.imp Nat.ne_of_lt) (by simpa using hsize)
      · rw [Array.getElem?_toList, hrow']
      · rw [Array.getElem?_toList, Array.getElem?_eq_getElem hi']
    rw [bisectPosition?_eq_some hincreasing hrow']
    simp only [hvalue, Option.bind_some, hlookup]
    rfl
  · rw [bisectPosition?_eq_none hmem, lookup_zip_of_not_mem (by simpa using hmem)]
    rfl

end CscMatrix

end Socp
