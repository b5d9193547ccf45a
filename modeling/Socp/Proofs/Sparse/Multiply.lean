import Mathlib.Algebra.Order.Ring.Defs
import Socp.Proofs.Lists
import Socp.Proofs.Sparse.Columns
import Socp.Sparse.Multiply

/-!
The product of a matrix and a vector, row by row. Entries are added as they are stored, column after
column, so each row ends up with its own entries added one after the other in the order of the
columns. This holds for any addition and any multiplication.
-/

namespace Socp

/-! ### Factors that are not multiplied with -/

/-- The test for equality tells zero, one and minus one apart, and knows each of the last two. -/
class UnitsApart (α : Type) [Zero α] [One α] [Neg α] [BEq α] : Prop where
  one_beq_one : ((1 : α) == 1) = true
  neg_one_beq_neg_one : ((-1 : α) == -1) = true
  one_beq_zero : ((1 : α) == 0) = false
  neg_one_beq_zero : ((-1 : α) == 0) = false
  neg_one_beq_one : ((-1 : α) == 1) = false

/-- Where the test is equality, it is enough that the three numbers are different. -/
theorem UnitsApart.of_ne {α : Type} [Zero α] [One α] [Neg α] [BEq α] [LawfulBEq α]
    (hone : (1 : α) ≠ 0) (hzero : (-1 : α) ≠ 0) (hneg : (-1 : α) ≠ 1) : UnitsApart α where
  one_beq_one := beq_self_eq_true _
  neg_one_beq_neg_one := beq_self_eq_true _
  one_beq_zero := beq_eq_false_iff_ne.2 hone
  neg_one_beq_zero := beq_eq_false_iff_ne.2 hzero
  neg_one_beq_one := beq_eq_false_iff_ne.2 hneg

/-- They are different wherever there is an order. -/
instance {R : Type} [Ring R] [LinearOrder R] [IsStrictOrderedRing R] [BEq R] [LawfulBEq R] :
    UnitsApart R :=
  .of_ne one_ne_zero (neg_ne_zero.2 one_ne_zero) (neg_one_lt_zero.trans zero_lt_one).ne

namespace CscMatrix

variable {α : Type}

theorem scaleTarget_neg_one [Zero α] [One α] [Neg α] [Mul α] [BEq α] [UnitsApart α]
    (y : Array α) : scaleTarget (-1) y = y.map (- ·) := by
  simp [scaleTarget, UnitsApart.neg_one_beq_zero, UnitsApart.neg_one_beq_one,
    UnitsApart.neg_one_beq_neg_one]

/-! ### Additions to an array -/

/-- What a list of additions has for a row, in order. -/
def additionsAt (l : List (Nat × α)) (r : Nat) : List α := (l.filter (·.1 = r)).map (·.2)

theorem additionsAt_cons (t : Nat × α) (l : List (Nat × α)) (r : Nat) :
    additionsAt (t :: l) r = if t.1 = r then t.2 :: additionsAt l r else additionsAt l r := by
  by_cases hr : t.1 = r <;> simp [additionsAt, hr]

theorem additionsAt_flatMap {β : Type} (f : β → List (Nat × α)) (l : List β) (r : Nat) :
    additionsAt (l.flatMap f) r = l.flatMap fun b => additionsAt (f b) r := by
  simp only [additionsAt, List.filter_flatMap, List.map_flatMap]

theorem additionsAt_map {β : Type} (f : β → α) (l : List (Nat × β)) (r : Nat) :
    additionsAt (l.map fun t => (t.1, f t.2)) r = (additionsAt l r).map f := by
  rw [additionsAt, additionsAt, List.filter_map, List.map_map, List.map_map]
  rfl

theorem additionsAt_eq_lookup {l : List (Nat × α)} (hkeys : (l.map (·.1)).Nodup) (r : Nat) :
    additionsAt l r = (l.lookup r).toList :=
  map_snd_filter_eq_lookup hkeys r

/-- Each row gets its own additions, whatever comes in between for other rows. -/
theorem foldlM_addAt? [Add α] {l : List (Nat × α)} {y : Array α} (h : ∀ t ∈ l, t.1 < y.size) :
    l.foldlM (fun y t => addAt? y t.1 t.2) y =
      some (y.mapIdx fun r s => (additionsAt l r).foldl (· + ·) s) := by
  induction l generalizing y with
  | nil =>
      have hsame : (y.mapIdx fun r s => (additionsAt ([] : List (Nat × α)) r).foldl (· + ·) s) =
          y := by
        apply Array.ext
        · simp
        · intro r hr hr'
          simp [additionsAt]
      rw [hsame]
      rfl
  | cons t l ih =>
      have ht := h t List.mem_cons_self
      rw [List.foldlM_cons, addAt?, dif_pos ht]
      show l.foldlM _ _ = _
      rw [ih (by simpa using fun t' ht' => h t' (List.mem_cons_of_mem t ht'))]
      congr 1
      apply Array.ext
      · simp
      · intro r hr hr'
        simp only [Array.getElem_mapIdx, Array.getElem_set, additionsAt_cons]
        split
        case isTrue heq =>
          subst heq
          rfl
        case isFalse hne => rfl

/-! ### The additions of a product -/

/-- What a product adds and where, column after column. -/
def products (term : α → α → α) (columns : List (List (Nat × α))) (x : List α) :
    List (Nat × α) :=
  (columns.zip x).flatMap fun (column, xj) => column.map fun (row, a) => (row, term a xj)

theorem products_cons (term : α → α → α) (column : List (Nat × α))
    (columns : List (List (Nat × α))) (xj : α) (x : List α) :
    products term (column :: columns) (xj :: x) =
      column.map (fun t => (t.1, term t.2 xj)) ++ products term columns x :=
  rfl

theorem lt_of_mem_products {term : α → α → α} {columns : List (List (Nat × α))} {x : List α}
    {n : Nat} (h : ∀ c ∈ columns, ∀ t ∈ c, t.1 < n) : ∀ t ∈ products term columns x, t.1 < n := by
  intro t ht
  obtain ⟨⟨column, xj⟩, hmem, ht⟩ := List.mem_flatMap.1 ht
  obtain ⟨s, hs, rfl⟩ := List.mem_map.1 ht
  exact h column (List.of_mem_zip hmem).1 s hs

theorem foldlM_stored?_zipIdx [Add α] {A : CscMatrix α} {columns : List (List (Nat × α))}
    {x : List α} {n : Nat} (hx : x.length = columns.length)
    (hstored : ∀ j (hj : j < columns.length), A.stored? (n + j) = some columns[j])
    (term : α → α → α) (y : Array α) :
    (x.zipIdx n).foldlM (fun y e => do
        (← A.stored? e.2).foldlM (fun y t => addAt? y t.1 (term t.2 e.1)) y) y =
      (products term columns x).foldlM (fun y t => addAt? y t.1 t.2) y := by
  induction x generalizing n columns y with
  | nil =>
      obtain rfl : columns = [] := List.eq_nil_of_length_eq_zero hx.symm
      rfl
  | cons xj x ih =>
      cases columns with
      | nil => cases hx
      | cons column columns =>
          have hfirst : A.stored? n = some column := hstored 0 (by simp)
          have hlater : ∀ j (hj : j < columns.length), A.stored? (n + 1 + j) = some columns[j] := by
            intro j hj
            rw [Nat.add_assoc, Nat.add_comm 1]
            exact hstored (j + 1) (by simpa using hj)
          rw [List.zipIdx_cons, List.foldlM_cons, products_cons, List.foldlM_append,
            List.foldlM_map]
          simp only [hfirst, Option.bind_eq_bind, Option.bind_some]
          congr 1
          funext z
          exact ih (by simpa using hx) hlater z

theorem scatter?_eq_foldlM [Add α] {A : CscMatrix α} {columns : List (List (Nat × α))}
    {x : Array α} (hx : x.size = columns.length)
    (hstored : ∀ j (hj : j < columns.length), A.stored? j = some columns[j])
    (term : α → α → α) (y : Array α) :
    A.scatter? term x y =
      (products term columns x.toList).foldlM (fun y t => addAt? y t.1 t.2) y := by
  refine foldlM_stored?_zipIdx (by simpa using hx) ?_ term y
  intro j hj
  rw [Nat.zero_add]
  exact hstored j hj

/-! ### The product -/

variable {rows : Nat} {columns : List (List (Nat × α))}

theorem stored?_ofColumns {j : Nat} (hj : j < columns.length) :
    (ofColumns rows columns).stored? j = some columns[j] := by
  rw [stored?, colStart_ofColumns (Nat.le_of_lt hj), colStart_ofColumns hj, column?_ofColumns hj,
    startOf_succ hj]
  simp only [Option.bind_eq_bind, Option.bind_some]
  split
  case isTrue hle =>
    have hnil : columns[j] = [] := List.eq_nil_of_length_eq_zero (by omega)
    rw [hnil]
    rfl
  case isFalse => rfl

/-- `A x - y`: each row starts from what it had, negated, and adds its products column by column. -/
theorem gemv?_ofColumns [Zero α] [One α] [Neg α] [Add α] [Mul α] [BEq α] [UnitsApart α]
    {x y : Array α} (hx : x.size = columns.length) (hy : y.size = rows)
    (hrows : ∀ c ∈ columns, ∀ t ∈ c, t.1 < rows) :
    (ofColumns rows columns).gemv? y x 1 (-1) =
      some (y.mapIdx fun r b =>
        (additionsAt (products (· * ·) columns x.toList) r).foldl (· + ·) (-b)) := by
  have hnnz : (ofColumns rows columns).nnz? = some (ofColumns rows columns).value.size := by
    rw [nnz?_ofColumns, size_value_ofColumns]
  have hbound : ∀ t ∈ products (· * ·) columns x.toList, t.1 < (y.map (- ·)).size := by
    rw [Array.size_map, hy]
    exact lt_of_mem_products hrows
  rw [gemv?]
  simp only [UnitsApart.one_beq_zero, UnitsApart.one_beq_one, scaleTarget_neg_one, if_true]
  rw [if_neg Bool.false_ne_true, if_pos ⟨hnnz, hx, (Array.size_map ..).trans hy⟩,
    scatter?_eq_foldlM hx fun j hj => stored?_ofColumns hj]
  rw [foldlM_addAt? hbound]
  congr 1
  apply Array.ext
  · simp
  · intro r hr hr'
    simp

end CscMatrix

end Socp
