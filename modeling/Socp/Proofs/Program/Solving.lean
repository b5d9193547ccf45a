import Socp.Proofs.Program.Checkin
import Socp.Proofs.Program.Isolation
import Socp.Proofs.Program.Refusal

/-!
Solving in one call, for any solver whatever. A program that is lent already turns the solver away
uncalled. Any other program calls it once, on the matrices of a check-out; if the three vectors that
are read back fit, their values are stored and nothing else of what the solver did shows, and if
they do not, the program stays lent.
-/

namespace Socp

variable {α : Type}

/-! ### The run under watch -/

theorem WatchedM.run_solveWith_of_idle {τ : Type} [Zero α] [BEq α] {p : Program α}
    (h : p.Coherent) (hidle : p.session = none) (solver : Matrices α → Option τ × Matrices α)
    (calls : List (Matrices α)) :
    (solveWith solver).run ⟨p, calls⟩ =
      let s := p.loan.withMatrices (solver p.exported).2
      let q := p.lentAs (solver p.exported).2
      match (solver p.exported).1 with
      | none => .error .aborted ⟨q, calls ++ [p.exported]⟩
      | some status =>
        if s.Returnable then .ok status ⟨q.returned s, calls ++ [p.exported]⟩
        else .error .aborted ⟨q, calls ++ [p.exported]⟩ := by
  obtain ⟨hout, -⟩ := h.lends hidle
  have hcall : (call solver).run ⟨p.lent, calls⟩ =
      .ok (solver p.exported).1 ⟨p.lentAs (solver p.exported).2, calls ++ [p.exported]⟩ :=
    run_call ..
  have hin : (ProgramM.checkIn : ProgramM α Unit).run (p.lentAs (solver p.exported).2) = _ :=
    ProgramM.run_checkIn (h.lentAs _)
  have hsession : (p.lentAs (solver p.exported).2).session =
      some (p.loan.withMatrices (solver p.exported).2) := rfl
  rw [solveWith, ProgramM.solveThrough, EStateM.run_bind, run_quietly, hout]
  dsimp only
  rw [EStateM.run_bind, hcall]
  dsimp only
  cases (solver p.exported).1 with
  | none => rfl
  | some status =>
      rw [hsession] at hin
      dsimp only at hin ⊢
      rw [EStateM.run_bind, run_quietly, hin]
      by_cases hret : (p.loan.withMatrices (solver p.exported).2).Returnable
      · rw [if_pos hret, if_pos hret]
        rfl
      · rw [if_neg hret, if_neg hret]

namespace Program

/-- The program `p` after a solver has brought back these values. -/
def solved [Zero α] [BEq α] (p : Program α) (x s w : Array α) : Program α :=
  let N := { p.exported with x := x, s := s, w := w }
  (p.lentAs N).returned (p.loan.withMatrices N)

/-- Of all that a solver brings back, three vectors are looked at. -/
theorem returned_lentAs [Zero α] [BEq α] (p : Program α) (N : Matrices α) :
    (p.lentAs N).returned (p.loan.withMatrices N) = p.solved N.x N.s N.w :=
  rfl

/-- How solving in one call turns out, for every solver: one that answers with a status, and one
that breaks off. -/
structure Solves [Zero α] [BEq α] (p : Program α) : Prop where
  /-- Keeping account of the calls changes nothing. -/
  watched : ∀ {τ : Type} (solver : Matrices α → Option τ × Matrices α) calls,
    WatchedM.unwatch ((WatchedM.solveWith solver).run ⟨p, calls⟩) =
      (ProgramM.solveWith solver).run p
  lent : p.isCheckedOut → ∀ {τ : Type} (solver : Matrices α → Option τ × Matrices α) calls,
    (WatchedM.solveWith solver).run ⟨p, calls⟩ = .error (.refused .checkedOut) ⟨p, calls⟩
  /-- The solver is called once, on the matrices `M` of a check-out, and has brought back `N`. -/
  idle : p.isCheckedOut = false →
    ∃ q M, p.Lends q M ∧
      -- what becomes of the program does not depend on the rest of `N`, nor on the status
      ∃ solved : Array α → Array α → Array α → Program α,
        ∀ {τ : Type} (solver : Matrices α → Option τ × Matrices α) calls status? N,
          solver M = (status?, N) →
          (∀ status, status? = some status → N.Fits p →
            (WatchedM.solveWith solver).run ⟨p, calls⟩ =
              .ok status ⟨solved N.x N.s N.w, calls ++ [M]⟩ ∧
            p.Restores q N (solved N.x N.s N.w)) ∧
          (status? = none ∨ ¬N.Fits p → ∃ r,
            (WatchedM.solveWith solver).run ⟨p, calls⟩ = .error .aborted ⟨r, calls ++ [M]⟩ ∧
            r.isCheckedOut ∧ p.SameGraph r ∧ q.SameLoan r ∧ r.lentMatrices = .ok N)

namespace Coherent

variable [Zero α] [BEq α] {p : Program α}

theorem returnable_withMatrices_iff (h : p.Coherent) {N : Matrices α} :
    (p.loan.withMatrices N).Returnable ↔ N.Fits p :=
  (h.lentAs N).returnable_iff rfl

theorem solves (h : p.Coherent) : p.Solves where
  watched solver calls := WatchedM.Watches.solveWith solver ⟨p, calls⟩
  lent hlent _ solver calls := WatchedM.run_solveWith_of_session (w := ⟨p, calls⟩) hlent solver
  idle hopen := by
    have hidle : p.session = none := by simpa [isCheckedOut] using hopen
    refine ⟨p.lent, p.exported, h.lends hidle, p.solved, ?_⟩
    intro τ solver calls status? N hsolver
    have hrun := WatchedM.run_solveWith_of_idle h hidle solver calls
    rw [hsolver] at hrun
    dsimp only at hrun
    rw [hrun]
    constructor
    · rintro status rfl hfits
      have hret := h.returnable_withMatrices_iff.2 hfits
      refine ⟨?_, h.restores hret⟩
      dsimp only
      rw [if_pos hret, returned_lentAs]
    · intro hbad
      refine ⟨p.lentAs N, ?_, rfl, ⟨rfl, rfl, rfl, rfl⟩, ⟨⟨rfl, rfl, rfl, rfl⟩, rfl, rfl⟩, rfl⟩
      cases status? with
      | none => rfl
      | some status =>
          have hbad' : ¬(p.loan.withMatrices N).Returnable := by
            rw [h.returnable_withMatrices_iff]
            simpa using hbad
          exact if_neg hbad'

end Coherent

end Program

/-- Every solver can be let loose on every reachable program. -/
theorem Operation.performAll_solves [Zero α] [Add α] [Mul α] [BEq α] (id : Nat)
    (settings : Settings α) (ops : List (Operation α)) :
    (performAll (.empty id settings) ops).Solves :=
  (coherent_of_empty id settings ops).solves

end Socp
