import Socp.Handle

/-!
The coefficients of a linear form, at most one per variable, kept in the order of the variables'
creation.
-/

namespace Socp

structure Terms (α : Type) where
  toList : List (VariableId × α)
  sorted : toList.Pairwise fun s t => s.1 < t.1

namespace Terms

variable {α : Type}

def empty : Terms α := ⟨[], .nil⟩

def size (t : Terms α) : Nat := t.toList.length

def get? (t : Terms α) (v : VariableId) : Option α := t.toList.lookup v

/-- Puts a coefficient in its place in a sorted list, over an older one of the same variable. -/
def place (v : VariableId) (a : α) : List (VariableId × α) → List (VariableId × α)
  | [] => [(v, a)]
  | t :: ts =>
    if v < t.1 then (v, a) :: t :: ts
    else if v = t.1 then (v, a) :: ts
    else t :: place v a ts

theorem mem_place {v : VariableId} {a : α} {ts : List (VariableId × α)} {t : VariableId × α}
    (h : t ∈ place v a ts) : t = (v, a) ∨ t ∈ ts := by
  induction ts with
  | nil => simpa [place] using h
  | cons s ts ih =>
    simp only [place] at h
    split at h
    · simpa using h
    · split at h
      · rcases List.mem_cons.1 h with h | h
        · exact .inl h
        · exact .inr (.tail _ h)
      · rcases List.mem_cons.1 h with h | h
        · exact .inr (h ▸ .head _)
        · exact (ih h).imp_right (.tail _)

theorem pairwise_place (v : VariableId) (a : α) {ts : List (VariableId × α)}
    (h : ts.Pairwise fun s t => s.1 < t.1) : (place v a ts).Pairwise fun s t => s.1 < t.1 := by
  induction ts with
  | nil => simp [place]
  | cons s ts ih =>
    obtain ⟨hs, hts⟩ := List.pairwise_cons.1 h
    simp only [place]
    split
    case isTrue hv =>
      refine List.pairwise_cons.2 ⟨?_, h⟩
      intro t ht
      rcases List.mem_cons.1 ht with rfl | ht
      · exact hv
      · exact Handle.lt_trans hv (hs t ht)
    case isFalse hv =>
      split
      case isTrue heq => exact List.pairwise_cons.2 ⟨fun t ht => heq ▸ hs t ht, hts⟩
      case isFalse hne =>
        refine List.pairwise_cons.2 ⟨?_, ih hts⟩
        intro t ht
        rcases mem_place ht with rfl | ht
        · rcases Handle.lt_trichotomy v s.1 with h | h | h
          · exact absurd h hv
          · exact absurd h hne
          · exact h
        · exact hs t ht

def insert (t : Terms α) (v : VariableId) (a : α) : Terms α :=
  ⟨place v a t.toList, pairwise_place v a t.sorted⟩

def erase (t : Terms α) (v : VariableId) : Terms α :=
  ⟨t.toList.filter (·.1 ≠ v), t.sorted.filter _⟩

instance [BEq α] : BEq (Terms α) := ⟨fun s t => s.toList == t.toList⟩

theorem lookup_cons (t : VariableId × α) (ts : List (VariableId × α)) (u : VariableId) :
    (t :: ts).lookup u = if u = t.1 then some t.2 else ts.lookup u := by
  rcases t with ⟨w, b⟩
  by_cases h : u = w
  · simp [h]
  · have hne : (u == w) = false := beq_eq_false_iff_ne.2 h
    simp only [List.lookup_cons, hne, if_neg h]

theorem lookup_place (v : VariableId) (a : α) (ts : List (VariableId × α)) (u : VariableId) :
    (place v a ts).lookup u = if u = v then some a else ts.lookup u := by
  induction ts with
  | nil => simp [place, lookup_cons]
  | cons t ts ih =>
    simp only [place]
    split
    · simp [lookup_cons]
    · split
      case isTrue heq =>
        simp only [lookup_cons, heq]
        split <;> rfl
      case isFalse hne =>
        simp only [lookup_cons, ih]
        by_cases ht : u = t.1
        · have hu : u ≠ v := fun h => hne (h ▸ ht)
          rw [if_pos ht, if_neg hu, if_pos ht]
        · rw [if_neg ht, if_neg ht]

theorem lookup_filter (v : VariableId) (ts : List (VariableId × α)) (u : VariableId) :
    (ts.filter (·.1 ≠ v)).lookup u = if u = v then none else ts.lookup u := by
  induction ts with
  | nil => simp
  | cons t ts ih =>
    by_cases ht : t.1 = v
    · rw [List.filter_cons_of_neg (by simp [ht]), ih, lookup_cons, ht]
      split <;> rfl
    · rw [List.filter_cons_of_pos (by simp [ht]), lookup_cons, lookup_cons, ih]
      by_cases hu : u = t.1
      · rw [if_pos hu, if_neg (hu ▸ ht), if_pos hu]
      · rw [if_neg hu, if_neg hu]

@[simp] theorem get?_empty (u : VariableId) : (empty : Terms α).get? u = none := rfl

theorem get?_insert (t : Terms α) (v : VariableId) (a : α) (u : VariableId) :
    (t.insert v a).get? u = if u = v then some a else t.get? u :=
  lookup_place v a t.toList u

theorem get?_erase (t : Terms α) (v u : VariableId) :
    (t.erase v).get? u = if u = v then none else t.get? u :=
  lookup_filter v t.toList u

end Terms

end Socp
