import Socp.Constraint
import Socp.Proofs.Lists

/-!
Terms as a finite map. The list of terms and the look-up say the same, and taking out several
variables at once is what taking them out one by one comes to.
-/

namespace Socp

namespace Terms

variable {α : Type}

@[ext] theorem ext {s t : Terms α} (h : s.toList = t.toList) : s = t := by
  cases s
  cases t
  simp_all

theorem keys_nodup (t : Terms α) : (t.toList.map (·.1)).Nodup := by
  rw [List.Nodup, List.pairwise_map]
  refine t.sorted.imp ?_
  intro a b hab heq
  exact Handle.lt_irrefl _ (heq ▸ hab)

theorem get?_eq_some_iff {t : Terms α} {v : VariableId} {a : α} :
    t.get? v = some a ↔ (v, a) ∈ t.toList :=
  lookup_eq_some_iff_mem t.keys_nodup

/-- A sorted list is the list of terms if the look-up finds what is in it. -/
theorem toList_eq_of_sorted {t : Terms α} {l : List (VariableId × α)}
    (hl : l.Pairwise fun s t => s.1 < t.1) (hmem : ∀ v a, t.get? v = some a ↔ (v, a) ∈ l) :
    t.toList = l := by
  refine eq_of_pairwise_of_mem_iff (fun s t hst hts => ?_) t.sorted hl ?_
  · exact Handle.lt_irrefl _ (Handle.lt_trans hst hts)
  · rintro ⟨v, a⟩
    rw [← get?_eq_some_iff]
    exact hmem v a

theorem mem_of_mem_insert {t : Terms α} {v : VariableId} {a : α} {e : VariableId × α}
    (h : e ∈ (t.insert v a).toList) : e = (v, a) ∨ e ∈ t.toList :=
  mem_place h

/-- Takes out the terms of all the variables. -/
def eraseAll (t : Terms α) (vs : List VariableId) : Terms α :=
  ⟨t.toList.filter (·.1 ∉ vs), t.sorted.filter _⟩

@[simp] theorem eraseAll_nil (t : Terms α) : t.eraseAll [] = t := by
  ext1
  simp [eraseAll]

theorem eraseAll_erase (t : Terms α) (v : VariableId) (vs : List VariableId) :
    (t.erase v).eraseAll vs = t.eraseAll (v :: vs) := by
  ext1
  simp only [eraseAll, erase, List.filter_filter]
  refine List.filter_congr ?_
  intro e _
  simp [Bool.and_comm]

theorem eraseAll_eraseAll (t : Terms α) (vs ws : List VariableId) :
    (t.eraseAll vs).eraseAll ws = t.eraseAll (vs ++ ws) := by
  ext1
  simp only [eraseAll, List.filter_filter]
  refine List.filter_congr ?_
  intro e _
  simp [Bool.and_comm]

theorem eraseAll_perm (t : Terms α) {vs ws : List VariableId} (hperm : vs.Perm ws) :
    t.eraseAll vs = t.eraseAll ws := by
  ext1
  simp only [eraseAll, hperm.mem_iff]

theorem mem_eraseAll {t : Terms α} {vs : List VariableId} {e : VariableId × α} :
    e ∈ (t.eraseAll vs).toList ↔ e ∈ t.toList ∧ e.1 ∉ vs := by
  simp [eraseAll]

end Terms

namespace Constraint

variable {α : Type}

def eraseTerms (c : Constraint α) (vs : List VariableId) : Constraint α :=
  { c with terms := c.terms.eraseAll vs }

@[simp] theorem eraseTerms_nil (c : Constraint α) : c.eraseTerms [] = c := by
  simp [eraseTerms]

theorem eraseTerms_eraseTerm (c : Constraint α) (v : VariableId) (vs : List VariableId) :
    (c.eraseTerm v).eraseTerms vs = c.eraseTerms (v :: vs) := by
  simp [eraseTerms, eraseTerm, Terms.eraseAll_erase]

theorem eraseTerms_eraseTerms (c : Constraint α) (vs ws : List VariableId) :
    (c.eraseTerms vs).eraseTerms ws = c.eraseTerms (vs ++ ws) := by
  simp only [eraseTerms, Terms.eraseAll_eraseAll]

theorem eraseTerms_comm (c : Constraint α) (vs ws : List VariableId) :
    (c.eraseTerms vs).eraseTerms ws = (c.eraseTerms ws).eraseTerms vs := by
  rw [eraseTerms_eraseTerms, eraseTerms_eraseTerms, eraseTerms,
    Terms.eraseAll_perm _ List.perm_append_comm, eraseTerms]

theorem coefficient_eq_some_iff {c : Constraint α} {v : VariableId} {a : α} :
    c.coefficient v = some a ↔ (v, a) ∈ c.terms.toList :=
  Terms.get?_eq_some_iff

theorem coefficient_eraseTerms_eq_some_iff {c : Constraint α} {vs : List VariableId}
    {v : VariableId} {a : α} :
    (c.eraseTerms vs).coefficient v = some a ↔ v ∉ vs ∧ c.coefficient v = some a := by
  rw [coefficient_eq_some_iff, coefficient_eq_some_iff, eraseTerms, Terms.mem_eraseAll, and_comm]

/-- Setting a coefficient settles that of its variable, stored or not, and no other. -/
theorem coefficient_setTerm_eq_some_iff [Zero α] [BEq α] {c : Constraint α} {v u : VariableId}
    {a b : α} {dropZeros : Bool} :
    (c.setTerm v a dropZeros).coefficient u = some b ↔
      u = v ∧ b = a ∧ (dropZeros = false ∨ (b == 0) = false) ∨
        u ≠ v ∧ c.coefficient u = some b := by
  rw [coefficient, setTerm]
  split
  case isTrue hdrop =>
    obtain ⟨hon, hzero⟩ := Bool.and_eq_true_iff.1 hdrop
    rw [Terms.get?_erase]
    split
    case isTrue hu =>
      have hdropped : ¬(b = a ∧ (dropZeros = false ∨ (b == 0) = false)) := by
        rintro ⟨rfl, hoff⟩
        simp [hon, hzero] at hoff
      simp [hu, hdropped]
    case isFalse hu => simp [hu, coefficient]
  case isFalse hkeep =>
    have hkept : dropZeros = false ∨ (a == 0) = false := by
      rw [← Bool.and_eq_false_iff]
      exact Bool.eq_false_iff.2 hkeep
    rw [Terms.get?_insert]
    split
    case isTrue hu =>
      simp only [hu, true_and, not_true_eq_false, false_and, or_false, Option.some.injEq, ne_eq]
      constructor
      · rintro rfl
        exact ⟨rfl, hkept⟩
      · exact fun h => h.1.symm
    case isFalse hu => simp [hu, coefficient]

theorem mem_of_mem_setTerm [Zero α] [BEq α] {c : Constraint α} {v : VariableId} {a : α}
    {dropZeros : Bool} {e : VariableId × α} (h : e ∈ (c.setTerm v a dropZeros).terms.toList) :
    e.1 = v ∨ e ∈ c.terms.toList := by
  simp only [setTerm] at h
  split at h
  · exact .inr (List.mem_filter.1 h).1
  · rcases Terms.mem_of_mem_insert h with rfl | h
    · exact .inl rfl
    · exact .inr h

end Constraint

end Socp
