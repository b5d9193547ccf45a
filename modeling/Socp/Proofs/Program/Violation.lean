import Mathlib.Order.Bounds.Basic
import Socp.Proofs.Program.Agreement
import Socp.Proofs.Program.Values
import Socp.Proofs.Scalar.Exact

/-!
What the primal residual means over exact numbers. It is the largest violation of a constraint plus
the largest violation of a cone, so it bounds either and vanishes just where everything holds.
-/

namespace Socp

variable {K : Type} [ExactScalar K]

/-! ### Running maxima -/

theorem isGreatest_insert_max {s t top : K} {S : Set K} (h : IsGreatest (insert (max s t) S) top) :
    IsGreatest (insert s (insert t S)) top := by
  obtain ⟨hmem, hbound⟩ := h
  have hmax : max s t ≤ top := hbound (Set.mem_insert _ S)
  constructor
  · rcases hmem with rfl | hmem
    · rcases max_choice s t with heq | heq
      · exact .inl heq
      · exact .inr (.inl heq)
    · exact .inr (.inr hmem)
  · rintro e (rfl | rfl | he)
    · exact (le_max_left e t).trans hmax
    · exact (le_max_right s e).trans hmax
    · exact hbound (.inr he)

theorem foldlM_isGreatest {ι ε : Type} {f : ι → Except ε K} {g : K → K} {l : List ι}
    (hf : ∀ i ∈ l, ∃ r, f i = .ok r) (start : K) :
    ∃ top, l.foldlM (fun worst i => do
        let r ← f i
        return Scalar.maxNum worst (g r)) start = .ok top ∧
      IsGreatest (insert start {e | ∃ i ∈ l, ∃ r, f i = .ok r ∧ e = g r}) top := by
  induction l generalizing start with
  | nil => exact ⟨start, rfl, by simp [IsGreatest]⟩
  | cons i l ih =>
      obtain ⟨r, hr⟩ := hf i List.mem_cons_self
      obtain ⟨top, htop, hgreatest⟩ :=
        ih (fun j hj => hf j (List.mem_cons_of_mem i hj)) (max start (g r))
      have hset : {e | ∃ j ∈ i :: l, ∃ r, f j = .ok r ∧ e = g r} =
          insert (g r) {e | ∃ j ∈ l, ∃ r, f j = .ok r ∧ e = g r} := by
        ext e
        simp [hr]
      refine ⟨top, ?_, hset ▸ isGreatest_insert_max hgreatest⟩
      rw [List.foldlM_cons, hr, ← htop, ← ExactScalar.maxNum_eq]
      rfl

/-- Cutting the values off at `c` from below does not move a maximum that `c` takes part in. -/
theorem isGreatest_insert_cut {c b : K} {S : Set K} (h : IsGreatest (insert c S) b) :
    IsGreatest (insert c {e | ∃ d ∈ S, e = max d c}) b := by
  obtain ⟨hmem, hbound⟩ := h
  have hc : c ≤ b := hbound (Set.mem_insert c S)
  constructor
  · rcases hmem with rfl | hmem
    · exact .inl rfl
    · exact .inr ⟨b, hmem, (max_eq_left hc).symm⟩
  · rintro e (rfl | ⟨d, hd, rfl⟩)
    · exact hc
    · exact max_le (hbound (.inr hd)) hc

namespace Program

def constraintViolations (p : Program K) : Set K :=
  {e | ∃ con c r, p.findConstraint con = .ok c ∧ p.constraintResidual con = .ok r ∧ e = |r|}

/-- The violations of the live cones: the negative parts of their margins. -/
def coneViolations (p : Program K) : Set K :=
  {e | ∃ id cone m, p.findCone id = .ok cone ∧ p.coneResidual id = .ok m ∧ e = max (-m) 0}

/-- The stored values satisfy every equation and lie in every cone. -/
structure Satisfied (p : Program K) : Prop where
  equation : ∀ con c, p.findConstraint con = .ok c →
    (c.terms.toList.map fun t => t.2 * p.point t.1).sum = c.rhs
  membership : ∀ id cone, p.findCone id = .ok cone → cone.Contains p.point

/-- The primal residual is `r`, and `r` measures by how much the stored values miss. -/
structure Measured (p : Program K) (r : K) : Prop where
  residual_eq : p.primalResidual = .ok r
  constraint_le : ∀ con c, p.findConstraint con = .ok c →
    ∃ d, p.constraintResidual con = .ok d ∧ |d| ≤ r
  cone_le : ∀ id cone, p.findCone id = .ok cone → ∃ m, p.coneResidual id = .ok m ∧ -m ≤ r
  sum_eq : ∃ a b, r = a + b ∧ IsGreatest (insert 0 p.constraintViolations) a ∧
    IsGreatest (insert 0 p.coneViolations) b
  eq_zero_iff : r = 0 ↔ p.Satisfied
  feasible_iff : p.settings.feasibilityTol = 0 →
    ∃ answer, p.isPrimalFeasible = .ok answer ∧ (answer = true ↔ p.Satisfied)

variable {p : Program K}

namespace Coherent

theorem constraintResidual_eq_sub (h : p.Coherent) {con : ConstraintId} {c : Constraint K}
    (hcon : p.findConstraint con = .ok c) :
    p.constraintResidual con =
      .ok ((c.terms.toList.map fun t => t.2 * p.point t.1).sum - c.rhs) := by
  have hlive : ∀ t ∈ c.terms.toList, ∃ x, p.findVariable t.1 = .ok x := fun t ht =>
    Store.mem_handles_iff.1 (h.terms_live hcon t ht)
  have hlhs := foldlM_point Prod.snd Prod.fst hlive (0 : K)
  rw [← List.sum_eq_foldl] at hlhs
  have hresidual : p.constraintResidual con =
      (c.terms.toList.foldlM (fun total t => do
        return total + t.2 * (← p.findVariable t.1).primal) 0 >>= fun lhs =>
          pure (lhs - c.rhs)) := by
    change p.constraints.find con = .ok c at hcon
    rw [constraintResidual, hcon]
    rfl
  rw [hresidual, hlhs]
  rfl

theorem exists_coneResidual (h : p.Coherent) {id : ConeId} {cone : Cone}
    (hcone : p.findCone id = .ok cone) :
    ∃ m, p.coneResidual id = .ok m ∧ (0 ≤ m ↔ cone.Contains p.point) := by
  have hlive : ∀ v ∈ cone.vars, ∃ x, p.findVariable v = .ok x := by
    intro v hv
    obtain ⟨x, hx, -⟩ := h.owner hcone v hv
    exact ⟨x, hx⟩
  have hlen : (cone.vars.map p.point).length = cone.dim := List.length_map ..
  obtain ⟨m, hm⟩ := Cone.exists_margin hlen
  refine ⟨m, ?_, Cone.margin_nonneg_iff hm⟩
  change p.cones.find id = .ok cone at hcone
  rw [coneResidual, hcone]
  dsimp only [Fault.ofRefusal, bind, Except.bind]
  rw [primalValues_eq hlive]
  dsimp only
  rw [hm]
  rfl

theorem exists_worstConstraint (h : p.Coherent) :
    ∃ a, p.worstConstraint = .ok a ∧ IsGreatest (insert 0 p.constraintViolations) a := by
  have hlive : ∀ con ∈ p.constraints.handles,
      ∃ r, Fault.ofRefusal (p.constraintResidual con) = .ok r := by
    intro con hcon
    obtain ⟨c, hc⟩ := Store.mem_handles_iff.1 hcon
    exact ⟨_, ofRefusal_eq_ok_iff.2 (h.constraintResidual_eq_sub hc)⟩
  obtain ⟨a, ha, hgreatest⟩ := foldlM_isGreatest (g := Scalar.abs) hlive 0
  have hset : p.constraintViolations = {e | ∃ con ∈ p.constraints.handles, ∃ r,
      Fault.ofRefusal (p.constraintResidual con) = .ok r ∧ e = Scalar.abs r} := by
    ext e
    constructor
    · rintro ⟨con, c, r, hc, hr, rfl⟩
      exact ⟨con, Store.mem_handles_iff.2 ⟨c, hc⟩, r, ofRefusal_eq_ok_iff.2 hr,
        (ExactScalar.abs_eq r).symm⟩
    · rintro ⟨con, hcon, r, hr, rfl⟩
      obtain ⟨c, hc⟩ := Store.mem_handles_iff.1 hcon
      exact ⟨con, c, r, hc, ofRefusal_eq_ok_iff.1 hr, ExactScalar.abs_eq r⟩
  exact ⟨a, ha, hset ▸ hgreatest⟩

theorem exists_worstCone (h : p.Coherent) :
    ∃ b, p.worstCone = .ok b ∧ IsGreatest (insert 0 p.coneViolations) b := by
  have hlive : ∀ id ∈ p.cones.handles, ∃ m, p.coneResidual id = .ok m := by
    intro id hid
    obtain ⟨cone, hcone⟩ := Store.mem_handles_iff.1 hid
    obtain ⟨m, hm, -⟩ := h.exists_coneResidual hcone
    exact ⟨m, hm⟩
  obtain ⟨b, hb, hgreatest⟩ := foldlM_isGreatest (g := fun m => -m) hlive 0
  have hset : p.coneViolations = {e | ∃ d ∈ {d | ∃ id ∈ p.cones.handles, ∃ m,
      p.coneResidual id = .ok m ∧ d = -m}, e = max d 0} := by
    ext e
    constructor
    · rintro ⟨id, cone, m, hcone, hm, rfl⟩
      exact ⟨-m, ⟨id, Store.mem_handles_iff.2 ⟨cone, hcone⟩, m, hm, rfl⟩, rfl⟩
    · rintro ⟨_, ⟨id, hid, m, hm, rfl⟩, rfl⟩
      obtain ⟨cone, hcone⟩ := Store.mem_handles_iff.1 hid
      exact ⟨id, cone, m, hcone, hm, rfl⟩
  exact ⟨b, hb, hset ▸ isGreatest_insert_cut hgreatest⟩

theorem satisfied_iff (h : p.Coherent) {a b : K}
    (ha : IsGreatest (insert 0 p.constraintViolations) a)
    (hb : IsGreatest (insert 0 p.coneViolations) b) : a + b = 0 ↔ p.Satisfied := by
  have ha₀ : 0 ≤ a := ha.2 (Set.mem_insert 0 _)
  have hb₀ : 0 ≤ b := hb.2 (Set.mem_insert 0 _)
  rw [add_eq_zero_iff_of_nonneg ha₀ hb₀]
  constructor
  · rintro ⟨rfl, rfl⟩
    constructor
    case equation =>
      intro con c hcon
      have hr := h.constraintResidual_eq_sub hcon
      have hle := ha.2 (.inr ⟨con, c, _, hcon, hr, rfl⟩)
      exact sub_eq_zero.1 (abs_nonpos_iff.1 hle)
    case membership =>
      intro id cone hcone
      obtain ⟨m, hm, hiff⟩ := h.exists_coneResidual hcone
      have hle := hb.2 (.inr ⟨id, cone, m, hcone, hm, rfl⟩)
      exact hiff.1 (neg_nonpos.1 ((le_max_left _ _).trans hle))
  · rintro ⟨hequation, hmembership⟩
    constructor
    · rcases ha.1 with rfl | ⟨con, c, r, hcon, hr, rfl⟩
      · rfl
      · rw [h.constraintResidual_eq_sub hcon] at hr
        cases hr
        rw [hequation con c hcon, sub_self, abs_zero]
    · rcases hb.1 with rfl | ⟨id, cone, m, hcone, hm, rfl⟩
      · rfl
      · obtain ⟨m', hm', hiff⟩ := h.exists_coneResidual hcone
        rw [hm] at hm'
        cases hm'
        exact max_eq_right (neg_nonpos.2 (hiff.2 (hmembership id cone hcone)))

theorem measured (h : p.Coherent) : ∃ r, p.Measured r := by
  obtain ⟨a, hworst, ha⟩ := h.exists_worstConstraint
  obtain ⟨b, hworst', hb⟩ := h.exists_worstCone
  have ha₀ : 0 ≤ a := ha.2 (Set.mem_insert 0 _)
  have hb₀ : 0 ≤ b := hb.2 (Set.mem_insert 0 _)
  have hresidual : p.primalResidual = .ok (a + b) := by
    rw [primalResidual_eq, hworst, hworst']
    rfl
  refine ⟨a + b, ?_⟩
  constructor
  case residual_eq => exact hresidual
  case constraint_le =>
    intro con c hcon
    have hr := h.constraintResidual_eq_sub hcon
    have hle := ha.2 (.inr ⟨con, c, _, hcon, hr, rfl⟩)
    exact ⟨_, hr, hle.trans (le_add_of_nonneg_right hb₀)⟩
  case cone_le =>
    intro id cone hcone
    obtain ⟨m, hm, -⟩ := h.exists_coneResidual hcone
    have hle := hb.2 (.inr ⟨id, cone, m, hcone, hm, rfl⟩)
    exact ⟨m, hm, (le_max_left _ _).trans (hle.trans (le_add_of_nonneg_left ha₀))⟩
  case sum_eq => exact ⟨a, b, rfl, ha, hb⟩
  case eq_zero_iff => exact h.satisfied_iff ha hb
  case feasible_iff =>
    intro htol
    have hdecided : p.isPrimalFeasible = .ok (decide (a + b ≤ 0)) := by
      rw [isPrimalFeasible, hresidual, htol]
      rfl
    refine ⟨_, hdecided, ?_⟩
    rw [decide_eq_true_iff, ← h.satisfied_iff ha hb]
    exact (add_nonneg ha₀ hb₀).ge_iff_eq'

end Coherent

end Program

namespace Operation

/-- In every reachable program the primal residual is found, and it measures the violation. -/
theorem performAll_measured (id : Nat) (settings : Settings K) (ops : List (Operation K)) :
    ∃ r, (performAll (.empty id settings) ops).Measured r :=
  (coherent_of_empty id settings ops).measured

/-- A point of the reals that misses a constraint and lies outside a cone of each kind. -/
theorem performAll_measured_over_reals :
    ∃ r, (performAll (.empty 0 ⟨false, 0, true⟩)
      ([.createOrthant, .createSecondOrder 3, .createRotated 3, .createConstraint,
        .addVariable ⟨0, 0, 0⟩ ⟨0, 0, 0⟩ 2, .addVariable ⟨0, 0, 0⟩ ⟨0, 5, 0⟩ (-1),
        .setConstrainedValue ⟨0, 0, 0⟩ 7, .setPrimalValue ⟨0, 0, 0⟩ (-4),
        .setPrimalValue ⟨0, 1, 0⟩ 3, .setPrimalValue ⟨0, 2, 0⟩ 4, .setPrimalValue ⟨0, 4, 0⟩ 1,
        .setPrimalValue ⟨0, 6, 0⟩ 1] : List (Operation ℝ))).Measured r :=
  performAll_measured 0 _ _

end Operation

end Socp
