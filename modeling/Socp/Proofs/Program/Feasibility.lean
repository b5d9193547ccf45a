import Socp.Operation
import Socp.Program.Residual
import Socp.Proofs.Scalar.Extended
import Socp.Proofs.Store.Listing

/-!
What a positive answer of the feasibility test is worth. It bounds every residual that is a number,
and it says nothing about one that is not.
-/

namespace Socp

open Scalar OrderedScalar

variable {α : Type} [Scalar α]

namespace Program

variable {p : Program α}

def worstConstraint (p : Program α) : Except Fault α :=
  p.constraints.handles.foldlM (fun worst id => do
    let r ← Fault.ofRefusal (p.constraintResidual id)
    return maxNum worst (abs r)) 0

def worstCone (p : Program α) : Except Fault α :=
  p.cones.handles.foldlM (fun worst id => do
    let m ← p.coneResidual id
    return maxNum worst (-m)) 0

theorem primalResidual_eq (p : Program α) :
    p.primalResidual = (do
      let a ← p.worstConstraint
      let b ← p.worstCone
      return a + b) :=
  rfl

theorem worst_le_of_isPrimalFeasible (h : p.isPrimalFeasible = .ok true) :
    ∃ a b, p.worstConstraint = .ok a ∧ p.worstCone = .ok b ∧
      a + b ≤ p.settings.feasibilityTol := by
  rw [isPrimalFeasible, primalResidual_eq] at h
  cases hcons : p.worstConstraint with
  | error fault =>
      rw [hcons] at h
      cases h
  | ok a =>
      cases hcones : p.worstCone with
      | error fault =>
          rw [hcons, hcones] at h
          cases h
      | ok b =>
          rw [hcons, hcones] at h
          have hle : decide (a + b ≤ p.settings.feasibilityTol) = true := Except.ok.inj h
          exact ⟨a, b, rfl, rfl, of_decide_eq_true hle⟩

theorem ofRefusal_eq_ok_iff {β : Type} {answer : Except ProgramError β} {b : β} :
    Fault.ofRefusal answer = .ok b ↔ answer = .ok b := by
  cases answer <;> simp [Fault.ofRefusal]

variable [OrderedScalar α]

/-- A positive answer bounds what is a number by the tolerance. -/
theorem bounds_of_isPrimalFeasible (h : p.isPrimalFeasible = .ok true) :
    (∀ con ∈ p.constraints.handles, ∃ r, p.constraintResidual con = .ok r ∧
      (isNaN r = false → abs r ≤ p.settings.feasibilityTol)) ∧
    (∀ id ∈ p.cones.handles, ∃ m, p.coneResidual id = .ok m ∧
      (isNaN m = false → -m ≤ p.settings.feasibilityTol)) := by
  obtain ⟨a, b, ha, hb, hsum⟩ := worst_le_of_isPrimalFeasible h
  -- both maxima start from zero, so neither pulls the sum below the other
  obtain ⟨hstart, hcons⟩ := foldlM_maxNum isNaN_zero ha
  obtain ⟨hstart', hcones⟩ := foldlM_maxNum isNaN_zero hb
  constructor
  · intro con hcon
    obtain ⟨r, hr, hle⟩ := hcons con hcon
    refine ⟨r, ofRefusal_eq_ok_iff.1 hr, ?_⟩
    intro hordered
    rw [← isNaN_abs] at hordered
    exact le_trans (hle hordered) (le_trans (le_add_right hstart hstart') hsum)
  · intro id hid
    obtain ⟨m, hm, hle⟩ := hcones id hid
    refine ⟨m, hm, ?_⟩
    intro hordered
    rw [← isNaN_neg] at hordered
    exact le_trans (hle hordered) (le_trans (le_add_left hstart hstart') hsum)

/-- If the test says yes, a constraint is satisfied up to the tolerance exactly if its residual is a
number, and so is a cone. -/
theorem isPrimalFeasible_sound_iff (h : p.isPrimalFeasible = .ok true) :
    (∀ con c, p.findConstraint con = .ok c → ∃ r, p.constraintResidual con = .ok r ∧
      (abs r ≤ p.settings.feasibilityTol ↔ isNaN r = false)) ∧
    (∀ id cone, p.findCone id = .ok cone → ∃ m, p.coneResidual id = .ok m ∧
      (-p.settings.feasibilityTol ≤ m ↔ isNaN m = false)) := by
  obtain ⟨hcons, hcones⟩ := bounds_of_isPrimalFeasible h
  constructor
  · intro con c hcon
    obtain ⟨r, hr, hle⟩ := hcons con (Store.mem_handles_iff.2 ⟨c, hcon⟩)
    refine ⟨r, hr, ?_, hle⟩
    intro habs
    rw [← isNaN_abs]
    exact (ordered_of_le habs).1
  · intro id cone hcone
    obtain ⟨m, hm, hle⟩ := hcones id (Store.mem_handles_iff.2 ⟨cone, hcone⟩)
    refine ⟨m, hm, fun hneg => (ordered_of_le hneg).2, ?_⟩
    intro hordered
    exact neg_le (hle hordered)

/-- A variable of an orthant that is not a number passes the test, and its cone is not satisfied to
within any tolerance. -/
theorem isPrimalFeasible_of_nan :
    let p := Operation.performAll (.empty 0 ⟨false, .finite 1, true⟩)
      ([.createOrthant, .setPrimalValue ⟨0, 0, 0⟩ .nan] : List (Operation (Extended ℚ)))
    p.isPrimalFeasible = .ok true ∧ p.coneResidual ⟨0, 0, 0⟩ = .ok .nan ∧
      ¬-p.settings.feasibilityTol ≤ .nan ∧
      (∀ con c, p.findConstraint con = .ok c → ∃ r, p.constraintResidual con = .ok r ∧
        (abs r ≤ p.settings.feasibilityTol ↔ isNaN r = false)) ∧
      (∀ id cone, p.findCone id = .ok cone → ∃ m, p.coneResidual id = .ok m ∧
        (-p.settings.feasibilityTol ≤ m ↔ isNaN m = false)) := by
  intro p
  have hyes : p.isPrimalFeasible = .ok true := by decide +kernel
  exact ⟨hyes, by decide +kernel, by decide +kernel, isPrimalFeasible_sound_iff hyes⟩

end Program

end Socp
