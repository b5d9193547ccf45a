import Socp.Scalar

/-!
The laws of comparison in arithmetic with unordered values, and what they say of the larger and the
smaller of two values. They hold of exact numbers, of numbers with infinities, and of formats that
round to the nearest value.
-/

namespace Socp

open Scalar

/-- Values are ordered throughout, but for those that are comparable to nothing. -/
class OrderedScalar (α : Type) [Scalar α] : Prop where
  le_refl : ∀ {a : α}, isNaN a = false → a ≤ a
  le_trans : ∀ {a b c : α}, a ≤ b → b ≤ c → a ≤ c
  le_total : ∀ {a b : α}, isNaN a = false → isNaN b = false → a ≤ b ∨ b ≤ a
  lt_iff : ∀ {a b : α}, a < b ↔ a ≤ b ∧ ¬b ≤ a
  ordered_of_le : ∀ {a b : α}, a ≤ b → isNaN a = false ∧ isNaN b = false
  isNaN_zero : isNaN (0 : α) = false
  isNaN_abs : ∀ a : α, isNaN (abs a) = isNaN a
  isNaN_neg : ∀ a : α, isNaN (-a) = isNaN a
  /-- Negation reverses the order. -/
  neg_le : ∀ {a b : α}, -a ≤ b → -b ≤ a
  /-- Rounding does not bring a sum below its summands. -/
  le_add_right : ∀ {a b : α}, 0 ≤ a → 0 ≤ b → a ≤ a + b
  le_add_left : ∀ {a b : α}, 0 ≤ a → 0 ≤ b → b ≤ a + b

/-- What is computed from a value that is comparable to nothing is itself comparable to nothing. -/
class UnorderedSpreads (α : Type) [Scalar α] : Prop where
  isNaN_add : ∀ {a b : α}, isNaN a = true ∨ isNaN b = true → isNaN (a + b) = true
  isNaN_sub : ∀ {a b : α}, isNaN a = true ∨ isNaN b = true → isNaN (a - b) = true
  isNaN_mul : ∀ {a b : α}, isNaN a = true ∨ isNaN b = true → isNaN (a * b) = true
  isNaN_sqrt : ∀ {a : α}, isNaN a = true → isNaN (sqrt a) = true

theorem Scalar.isNaN_minNum {α : Type} [Scalar α] (a b : α) :
    isNaN (minNum a b) = (isNaN a && isNaN b) := by
  rw [minNum]
  split
  case isTrue ha => simp [ha]
  case isFalse ha =>
    split
    case isTrue hb => simp [hb]
    case isFalse hb => split <;> simp_all

namespace OrderedScalar

variable {α : Type} [Scalar α] [OrderedScalar α] {a b c : α}

theorem not_le_of_isNaN_right (hb : isNaN b = true) : ¬a ≤ b := by
  intro hab
  rw [(ordered_of_le hab).2] at hb
  cases hb

theorem le_maxNum_left (ha : isNaN a = false) : a ≤ maxNum a b := by
  rw [maxNum, if_neg (by simp [ha])]
  split
  case isTrue hb => exact le_refl ha
  case isFalse hb =>
    split
    case isTrue hlt => exact (lt_iff.1 hlt).1
    case isFalse hle => exact le_refl ha

theorem le_maxNum_right (ha : isNaN a = false) (hb : isNaN b = false) : b ≤ maxNum a b := by
  rw [maxNum, if_neg (by simp [ha]), if_neg (by simp [hb])]
  split
  case isTrue hlt => exact le_refl hb
  case isFalse hle =>
    rcases le_total ha hb with hab | hba
    · refine Classical.byContradiction ?_
      intro hnot
      exact hle (lt_iff.2 ⟨hab, hnot⟩)
    · exact hba

theorem le_minNum_iff :
    (isNaN (minNum a b) = false → c ≤ minNum a b) ↔
      (isNaN a = false → c ≤ a) ∧ (isNaN b = false → c ≤ b) := by
  rw [isNaN_minNum, minNum]
  cases ha : isNaN a with
  | true => simp
  | false =>
      cases hb : isNaN b with
      | true => simp
      | false =>
          simp only [Bool.and_self, Bool.false_eq_true, if_false, true_implies]
          split
          case isTrue hlt =>
            have hba := (lt_iff.1 hlt).1
            exact ⟨fun hcb => ⟨le_trans hcb hba, hcb⟩, And.right⟩
          case isFalse hle =>
            have hab : a ≤ b := by
              rcases le_total ha hb with hab | hba
              · exact hab
              · exact Classical.byContradiction fun hnot => hle (lt_iff.2 ⟨hba, hnot⟩)
            exact ⟨fun hca => ⟨hca, le_trans hca hab⟩, And.left⟩

theorem le_minNum_of_isNaN_right (hb : isNaN b = true) : c ≤ minNum a b ↔ c ≤ a := by
  by_cases ha : isNaN a = true
  · rw [minNum, if_pos ha]
    exact iff_of_false (not_le_of_isNaN_right hb) (not_le_of_isNaN_right ha)
  · rw [minNum, if_neg ha, if_pos hb]

/-- A running minimum passes over unordered values as long as it meets an ordered one. -/
theorem le_foldl_minNum_iff (l : List α) :
    c ≤ l.foldl minNum a ↔
      (∃ x ∈ a :: l, isNaN x = false) ∧ ∀ x ∈ a :: l, isNaN x = false → c ≤ x := by
  induction l generalizing a with
  | nil =>
      simp only [List.foldl_nil, List.mem_singleton, exists_eq_left, forall_eq]
      exact ⟨fun hca => ⟨(ordered_of_le hca).2, fun _ => hca⟩, fun h => h.2 h.1⟩
  | cons b l ih =>
      rw [List.foldl_cons, ih]
      simp only [List.mem_cons, exists_eq_or_imp, forall_eq_or_imp, le_minNum_iff]
      simp only [isNaN_minNum, Bool.and_eq_false_iff, or_assoc, and_assoc]

/-- Running maxima bound what they started from and every ordered value they met. -/
theorem foldlM_maxNum {ι ε : Type} {f : ι → Except ε α} {g : α → α} {l : List ι} {start top : α}
    (hstart : isNaN start = false)
    (htop : l.foldlM (fun worst i => do
      let r ← f i
      return maxNum worst (g r)) start = .ok top) :
    start ≤ top ∧ ∀ i ∈ l, ∃ r, f i = .ok r ∧ (isNaN (g r) = false → g r ≤ top) := by
  induction l generalizing start with
  | nil =>
      cases htop
      exact ⟨le_refl hstart, fun i hi => absurd hi List.not_mem_nil⟩
  | cons i l ih =>
      rw [List.foldlM_cons] at htop
      cases hi : f i with
      | error e =>
          rw [hi] at htop
          cases htop
      | ok r =>
          rw [hi] at htop
          -- a maximum with an ordered value is ordered, whatever the other value is
          have hle : start ≤ maxNum start (g r) := le_maxNum_left hstart
          obtain ⟨hmax, hrest⟩ := ih (ordered_of_le hle).2 htop
          refine ⟨le_trans hle hmax, ?_⟩
          intro j hj
          rcases List.mem_cons.1 hj with rfl | hj
          · exact ⟨r, hi, fun hr => le_trans (le_maxNum_right hstart hr) hmax⟩
          · exact hrest j hj

end OrderedScalar

end Socp
