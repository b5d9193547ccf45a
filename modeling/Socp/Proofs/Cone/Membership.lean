import Socp.Cone
import Socp.Proofs.Scalar.Extended

/-!
What membership in a cone is worth where some values are comparable to nothing. A cone is defined by
quantities that are not negative in it. The margin is the smallest of them that is a number, so an
unordered quantity is noticed only where there is no other one: the orthant and the second-order
cone have a single quantity and let no unordered point in, and the rotated cone has three.
-/

namespace Socp

open Scalar OrderedScalar

variable {α : Type} [Scalar α]

namespace ConeKind

/-- The quantities that are not negative at the points of a cone. -/
def quantities? : ConeKind → List α → Option (List α)
  | .orthant, [x] => some [x]
  | .orthant, _ => none
  | .secondOrder, xs => xs.getLast?.map fun apex => [apex - Dense.norm xs.dropLast]
  | .rotated, x :: y :: inner => some [x, y, two * x * y - Dense.sumSq inner]
  | .rotated, _ => none

theorem exists_quantities (c : Cone) {values : List α} (hlen : values.length = c.dim) :
    ∃ q qs, c.kind.quantities? values = some (q :: qs) ∧
      c.margin? values = some (qs.foldl minNum q) ∧ (c.kind ≠ .rotated → qs = []) := by
  rw [Cone.margin?, if_pos hlen]
  cases c with
  | orthant v =>
      obtain ⟨x, rfl⟩ := List.length_eq_one_iff.1 hlen
      exact ⟨x, [], rfl, rfl, fun _ => rfl⟩
  | secondOrder inner apex =>
      have hne : values ≠ [] := by
        rintro rfl
        simp [Cone.dim, Cone.vars] at hlen
      have hlast := List.getLast?_eq_some_getLast hne
      refine ⟨values.getLast hne - Dense.norm values.dropLast, [], ?_, ?_, fun _ => rfl⟩
      · rw [Cone.kind, quantities?, hlast, Option.map_some]
      · rw [Cone.kind, margin?, hlast, Option.map_some, List.foldl_nil]
  | rotated u v inner =>
      obtain ⟨x, rest, rfl⟩ := List.exists_cons_of_length_eq_add_one hlen
      obtain ⟨y, zs, rfl⟩ := List.exists_cons_of_length_eq_add_one (Nat.succ.inj hlen)
      exact ⟨x, _, rfl, rfl, fun hne => absurd rfl hne⟩

end ConeKind

/-! ### What an unordered value spoils -/

section

variable [UnorderedSpreads α]

open UnorderedSpreads

theorem isNaN_foldl_add {xs : List α} {start : α}
    (h : isNaN start = true ∨ ∃ x ∈ xs, isNaN x = true) :
    isNaN (xs.foldl (· + ·) start) = true := by
  induction xs generalizing start with
  | nil => simpa using h
  | cons x xs ih =>
      refine ih ?_
      rcases h with hstart | ⟨y, hy, hnan⟩
      · exact .inl (isNaN_add (.inl hstart))
      · rcases List.mem_cons.1 hy with rfl | hy
        · exact .inl (isNaN_add (.inr hnan))
        · exact .inr ⟨y, hy, hnan⟩

namespace Dense

/-- However a sum is split, an unordered summand shows in it. -/
theorem isNaN_stretchSum {xs : List α} {first count : Nat}
    (h : ∃ x ∈ (xs.drop first).take count, isNaN x = true) :
    isNaN (stretchSum xs first count) = true := by
  fun_induction stretchSum xs first count with
  | case1 first count hshort => exact isNaN_foldl_add (.inr h)
  | case2 first count hlong ihleft ihright =>
      obtain ⟨x, hx, hnan⟩ := h
      rw [← take_drop_halves, List.mem_append] at hx
      refine isNaN_add (hx.imp ?_ ?_)
      · exact fun hleft => ihleft ⟨x, hleft, hnan⟩
      · exact fun hright => ihright ⟨x, hright, hnan⟩

theorem isNaN_pairwiseSum {xs : List α} (h : ∃ x ∈ xs, isNaN x = true) :
    isNaN (pairwiseSum xs) = true := by
  refine isNaN_stretchSum ?_
  rwa [List.drop_zero, List.take_length]

theorem isNaN_sumSq {xs : List α} (h : ∃ x ∈ xs, isNaN x = true) :
    isNaN (sumSq xs) = true := by
  obtain ⟨x, hx, hnan⟩ := h
  exact isNaN_pairwiseSum ⟨x * x, List.mem_map_of_mem hx, isNaN_mul (.inl hnan)⟩

theorem isNaN_norm {xs : List α} (h : ∃ x ∈ xs, isNaN x = true) : isNaN (norm xs) = true :=
  isNaN_sqrt (isNaN_sumSq h)

end Dense

/-- An unordered entry spoils the last quantity, the only one that all values go into. -/
theorem ConeKind.isNaN_getLast_quantities {kind : ConeKind} {values quantities : List α}
    (hq : kind.quantities? values = some quantities) (h : ∃ x ∈ values, isNaN x = true) :
    ∃ q, quantities.getLast? = some q ∧ isNaN q = true := by
  cases kind with
  | orthant =>
      match values, hq with
      | [x], hq =>
        cases hq
        exact ⟨x, rfl, by simpa using h⟩
  | secondOrder =>
      obtain ⟨apex, hapex, rfl⟩ := Option.map_eq_some_iff.1 hq
      obtain ⟨inner, rfl⟩ := List.getLast?_eq_some_iff.1 hapex
      refine ⟨_, rfl, isNaN_sub ?_⟩
      rw [List.dropLast_concat]
      obtain ⟨x, hx, hnan⟩ := h
      rcases List.mem_append.1 hx with hx | hx
      · exact .inr (Dense.isNaN_norm ⟨x, hx, hnan⟩)
      · rw [List.mem_singleton.1 hx] at hnan
        exact .inl hnan
  | rotated =>
      match values, hq with
      | x :: y :: inner, hq =>
        cases hq
        refine ⟨_, rfl, isNaN_sub ?_⟩
        obtain ⟨z, hz, hnan⟩ := h
        rcases List.mem_cons.1 hz with rfl | hz
        · exact .inl (isNaN_mul (.inl (isNaN_mul (.inr hnan))))
        · rcases List.mem_cons.1 hz with rfl | hz
          · exact .inl (isNaN_mul (.inr hnan))
          · exact .inr (Dense.isNaN_sumSq ⟨z, hz, hnan⟩)

end

/-! ### The test -/

namespace Cone

/-- How the test judges values by the quantities of the cone. -/
structure Judged (c : Cone) (values : List α) (tol : α) (quantities : List α) (inside : Bool) :
    Prop where
  quantities_eq : c.kind.quantities? values = some quantities
  contains_eq : c.contains? values tol = some inside
  /-- A quantity that is no number is passed over if there is one that is. -/
  inside_iff : inside = true ↔
    (∃ q ∈ quantities, isNaN q = false) ∧ ∀ q ∈ quantities, isNaN q = false → -tol ≤ q
  /-- A point that is let in fulfils all that defines the cone exactly if nothing was passed
  over. -/
  sound_iff : inside = true →
    ((∀ q ∈ quantities, -tol ≤ q) ↔ ∀ q ∈ quantities, isNaN q = false)
  /-- Where there is a single quantity, nothing can be passed over. -/
  inside_iff_of_single : c.kind ≠ .rotated → (inside = true ↔ ∀ q ∈ quantities, -tol ≤ q)
  refuses_of_nan : c.kind ≠ .rotated → (∃ x ∈ values, isNaN x = true) → inside = false
  /-- An unordered entry of a rotated cone leaves the first two values to decide. -/
  inside_iff_of_nan : ∀ x y inner, c.kind = .rotated → values = x :: y :: inner →
    (∃ z ∈ values, isNaN z = true) → (inside = true ↔ -tol ≤ minNum x y)

variable [OrderedScalar α] [UnorderedSpreads α]

/-- The test answers for values in the right number, and lets a point in by those of its quantities
that are numbers. -/
theorem exists_judged (c : Cone) {values : List α} (hlen : values.length = c.dim) (tol : α) :
    ∃ quantities inside, c.Judged values tol quantities inside := by
  obtain ⟨q, qs, hquantities, hmargin, hsingle⟩ := ConeKind.exists_quantities c hlen
  have hinside : decide (-tol ≤ qs.foldl minNum q) = true ↔ -tol ≤ qs.foldl minNum q :=
    decide_eq_true_iff
  have hinside_single : c.kind ≠ .rotated →
      (decide (-tol ≤ qs.foldl minNum q) = true ↔ ∀ r ∈ q :: qs, -tol ≤ r) := by
    intro hkind
    rw [hinside, hsingle hkind]
    simp
  refine ⟨q :: qs, decide (-tol ≤ qs.foldl minNum q), ?_⟩
  constructor
  case quantities_eq => exact hquantities
  case contains_eq => rw [contains?, hmargin, Option.map_some]
  case inside_iff =>
    rw [hinside]
    exact le_foldl_minNum_iff qs
  case sound_iff =>
    intro hin
    have hordered := ((le_foldl_minNum_iff qs).1 (hinside.1 hin)).2
    exact ⟨fun hall r hr => (ordered_of_le (hall r hr)).2, fun hall r hr =>
      hordered r hr (hall r hr)⟩
  case inside_iff_of_single => exact hinside_single
  case refuses_of_nan =>
    intro hkind hnan
    obtain ⟨r, hlast, hr⟩ := ConeKind.isNaN_getLast_quantities hquantities hnan
    rw [← Bool.not_eq_true, hinside_single hkind]
    exact fun hall => not_le_of_isNaN_right hr (hall r (List.mem_of_getLast? hlast))
  case inside_iff_of_nan =>
    intro x y inner hkind hvalues hnan
    obtain ⟨gap, hlast, hgap⟩ := ConeKind.isNaN_getLast_quantities hquantities hnan
    rw [hkind, hvalues, ConeKind.quantities?, Option.some.injEq, List.cons.injEq] at hquantities
    obtain ⟨rfl, rfl⟩ := hquantities
    cases hlast
    -- the minimum of the first two stands against a gap that is no number
    rw [hinside]
    exact le_minNum_of_isNaN_right hgap

/-- A rotated cone lets in a point whose second value is not a number, though the cone asks of it
not to be negative. -/
theorem judged_despite_nan :
    let c : Cone := .rotated ⟨0, 0, 0⟩ ⟨0, 1, 0⟩ [⟨0, 2, 0⟩]
    let values : List (Extended ℚ) := [.finite 1, .nan, .finite 1]
    values.length = c.dim ∧ c.contains? values 0 = some true ∧ ¬-0 ≤ (.nan : Extended ℚ) ∧
      c.kind.quantities? values = some [.finite 1, .nan, .nan] ∧
      ∃ quantities inside, c.Judged values 0 quantities inside := by
  intro c values
  have hlen : values.length = c.dim := rfl
  exact ⟨hlen, by decide +kernel, by decide +kernel, by decide +kernel, exists_judged c hlen 0⟩

end Cone

end Socp
