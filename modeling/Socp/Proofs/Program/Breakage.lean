import Socp.Proofs.Program.Checkin
import Socp.Proofs.Program.Feasibility
import Socp.Proofs.Program.Isolation
import Socp.Proofs.Program.Refusal

/-!
Where calls break off. No question does, and of the operations only those that take the matrices
back, when the vectors have come back with other lengths. A program is still lent after that, with
the graph it had, and goes on once the lengths are right again.
-/

namespace Socp

variable {α : Type}

/-! ### Questions -/

/-- A result that is an answer or a refusal. -/
def Unbroken {β : Type} (answer : Except Fault β) : Prop := answer ≠ .error .aborted

namespace Unbroken

variable {β γ : Type}

theorem ok (b : β) : Unbroken (.ok b) := nofun

theorem ofRefusal (answer : Except ProgramError β) : Unbroken (Fault.ofRefusal answer) := by
  cases answer <;> exact nofun

theorem bind {x : Except Fault β} {f : β → Except Fault γ} (hx : Unbroken x)
    (hf : ∀ b, x = .ok b → Unbroken (f b)) : Unbroken (x >>= f) := by
  cases x with
  | ok b => exact hf b rfl
  | error fault =>
      intro habort
      cases habort
      exact hx rfl

theorem foldlM {ι : Type} {f : β → ι → Except Fault β} (hf : ∀ b i, Unbroken (f b i))
    (l : List ι) (start : β) : Unbroken (l.foldlM f start) := by
  induction l generalizing start with
  | nil => exact ok start
  | cons i l ih =>
      rw [List.foldlM_cons]
      exact (hf start i).bind fun b _ => ih b

end Unbroken

theorem Cone.exists_margin [Scalar α] {c : Cone} {values : List α} (h : values.length = c.dim) :
    ∃ m, c.margin? values = some m := by
  rw [margin?, if_pos h]
  cases c with
  | orthant x =>
      obtain ⟨a, rfl⟩ := List.length_eq_one_iff.1 h
      exact ⟨a, rfl⟩
  | secondOrder inner apex =>
      have hne : values ≠ [] := by
        rintro rfl
        simp [dim, vars] at h
      exact ⟨_, by rw [kind, ConeKind.margin?, List.getLast?_eq_getLast_of_ne_nil hne]; rfl⟩
  | rotated u v inner =>
      cases values with
      | nil => cases h
      | cons x values =>
          cases values with
          | nil => simp [dim, vars] at h
          | cons y rest => exact ⟨_, rfl⟩

namespace Program

variable [Scalar α] (p : Program α)

theorem unbroken_coneResidual (id : ConeId) : Unbroken (p.coneResidual id) := by
  refine (Unbroken.ofRefusal _).bind fun cone _ => ?_
  refine (Unbroken.ofRefusal _).bind fun values hvalues => ?_
  have hlen : values.length = cone.dim :=
    length_of_mapM_eq_ok (ofRefusal_eq_ok_iff.1 hvalues)
  obtain ⟨m, hm⟩ := Cone.exists_margin hlen
  rw [hm]
  exact .ok m

theorem unbroken_primalResidual : Unbroken p.primalResidual := by
  refine (Unbroken.foldlM (fun worst con => ?_) _ _).bind fun a _ => ?_
  · exact (Unbroken.ofRefusal _).bind fun r _ => .ok _
  · refine (Unbroken.foldlM (fun worst id => ?_) _ _).bind fun b _ => .ok _
    exact (p.unbroken_coneResidual id).bind fun m _ => .ok _

end Program

theorem Question.unbroken_answer [Scalar α] (p : Program α) (question : Question α) :
    Unbroken (question.answer p) := by
  cases question with
  | coneResidual id => exact p.unbroken_coneResidual id
  | primalResidual => exact p.unbroken_primalResidual
  | isPrimalFeasible => exact p.unbroken_primalResidual.bind fun r _ => .ok _
  | findVariable | findCone | findConstraint | findOrthant | findSecondOrder | findRotated
  | columnOf | rowOf | lentMatrices | constraintResidual | evaluate => exact .ofRefusal _
  | variableCount | coneCount | constraintCount | kindCount | listVariables | listCones
  | listConstraints | conesOfKind | isCheckedOut | objectiveValue | settings | printed =>
      exact .ok _

theorem Program.dot?_objectives [Zero α] [Add α] [Mul α] (p : Program α) :
    Dense.dot? (p.vars.values.map (·.objective)) (p.vars.values.map (·.primal)) =
      some p.objectiveValue := by
  rw [Dense.dot?, if_pos (by rw [List.length_map, List.length_map]), objectiveValue,
    List.zipWith_map, List.zipWith_self]

/-! ### Operations -/

theorem Program.Coherent.checkIn_of_fits [Zero α] [Add α] [Mul α] [BEq α] {p : Program α}
    (h : p.Coherent) {M : Matrices α}
    (hM : p.lentMatrices = .ok M) {f : Matrices α → Matrices α} (hfits : (f M).Fits p) :
    ∃ q, (ProgramM.checkIn : ProgramM α Unit).run (Operation.performAll p [.editLent f]) =
      .ok () q := by
  obtain ⟨s, hs, rfl⟩ := exists_session_of_lentMatrices hM
  have hq := h.withMatrices hs (f s.matrices)
  have hret : (s.withMatrices (f s.matrices)).Returnable := (hq.returnable_iff rfl).2 hfits
  have hedit : Operation.performAll p [.editLent f] =
      { p with session := some (s.withMatrices (f s.matrices)) } :=
    Operation.performAll_editLent hs [f]
  rw [hedit, ProgramM.run_checkIn hq]
  exact ⟨_, if_pos hret⟩

namespace Operation

variable [Zero α] [Add α] [Mul α] [BEq α] {p q : Program α}

theorem checkIn_aborted (h : p.Coherent) (hrun : (perform .checkIn).run p = .error .aborted q) :
    q.isCheckedOut ∧ q = p := by
  have houtcome := outcome_perform h .checkIn
  rw [hrun] at houtcome
  cases houtcome with
  | carriedOut hrefusal he =>
      cases he with
      | kept hs hret => exact ⟨by simp [Program.isCheckedOut, hs], rfl⟩

/-- A solver that breaks off, or spoils the lengths, has been lent the matrices, and leaves them as
it has changed them. -/
theorem solveWith_aborted (h : p.Coherent)
    {solver : Matrices α → Option SolverStatus × Matrices α}
    (hrun : (perform (.solveWith solver)).run p = .error .aborted q) :
    q.isCheckedOut ∧ p.SameGraph q ∧
      ∃ c M, (ProgramM.checkOut : ProgramM α Unit).run p = .ok () c ∧ c.lentMatrices = .ok M ∧
        Program.SameLoan c q ∧ q.lentMatrices = .ok (solver M).2 := by
  have houtcome := outcome_perform h (.solveWith solver)
  rw [hrun] at houtcome
  cases houtcome with
  | carriedOut hrefusal he =>
      cases he with
      | unsolved hidle hsolver hkept =>
          refine ⟨rfl, ⟨rfl, rfl, rfl, rfl⟩, p.lent, p.exported, ?_, rfl,
            ⟨⟨rfl, rfl, rfl, rfl⟩, rfl, rfl⟩, ?_⟩
          · rw [ProgramM.run_checkOut h, hidle]
            rfl
          · rw [hsolver]
            rfl

end Operation

/-! ### Breaking off -/

namespace Program

/-- Where the calls on a program break off, and what is left of it then. -/
structure BreaksSafely [Scalar α] (p : Program α) : Prop where
  question : ∀ (question : Question α) q, question.ask.run p ≠ .error .aborted q
  /-- The objective multiplies two lists of one length. -/
  objective : Dense.dot? (p.vars.values.map (·.objective)) (p.vars.values.map (·.primal)) =
    some p.objectiveValue
  operation : ∀ op : Operation α, (∃ q, op.perform.run p = .error .aborted q) ↔ op.breaksOff p
  checkIn : ∀ q, (Operation.perform .checkIn).run p = .error .aborted q →
    q.isCheckedOut ∧ q = p
  solveWith : ∀ solver q, (Operation.perform (.solveWith solver)).run p = .error .aborted q →
    q.isCheckedOut ∧ p.SameGraph q ∧
      ∃ c M, (ProgramM.checkOut : ProgramM α Unit).run p = .ok () c ∧ c.lentMatrices = .ok M ∧
        SameLoan c q ∧ q.lentMatrices = .ok (solver M).2
  /-- An edit that puts the lengths right lets the matrices be taken back. -/
  repair : ∀ (op : Operation α) q, op.perform.run p = .error .aborted q →
    ∀ M f, q.lentMatrices = .ok M → (f M).Fits q →
      ∃ r, (ProgramM.checkIn : ProgramM α Unit).run (Operation.performAll q [.editLent f]) =
        .ok () r

theorem Coherent.breaksSafely [Scalar α] {p : Program α} (h : p.Coherent) : p.BreaksSafely where
  question question q hrun := by
    rw [question.run_ask] at hrun
    split at hrun
    · cases hrun
    · next fault hanswer =>
        cases hrun
        exact question.unbroken_answer p hanswer
  objective := p.dot?_objectives
  operation op := Operation.run_eq_aborted_iff h
  checkIn q hrun := Operation.checkIn_aborted h hrun
  solveWith solver q hrun := Operation.solveWith_aborted h hrun
  repair op q hrun M f hM hfits := by
    have hq : q.Coherent := by
      have hleaves := Operation.leaves_perform h op
      rwa [hrun] at hleaves
    exact hq.checkIn_of_fits hM hfits

end Program

/-- Calls on a reachable program break off for the lengths of lent vectors only, and safely. -/
theorem Operation.performAll_breaksSafely [Scalar α] (id : Nat) (settings : Settings α)
    (ops : List (Operation α)) : (performAll (.empty id settings) ops).BreaksSafely :=
  (coherent_of_empty id settings ops).breaksSafely

end Socp
