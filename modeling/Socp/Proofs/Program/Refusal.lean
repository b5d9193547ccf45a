import Socp.Question
import Socp.Proofs.Program.Reachable

/-!
A call that is refused has done nothing. For a solver this includes that it has not been called, so
there is a version of solving that keeps account of the calls.
-/

namespace Socp

variable {α : Type}

/-! ### Solving under watch -/

/-- A program, and the arrays that solvers have been called on. -/
structure Watched (α : Type) where
  program : Program α
  calls : List (Matrices α)

abbrev WatchedM (α : Type) := EStateM Fault (Watched α)

namespace WatchedM

variable {β γ τ : Type}

/-- Runs an operation that calls no solver. -/
def quietly (x : ProgramM α β) : WatchedM α β := fun w =>
  match x.run w.program with
  | .ok b q => .ok b ⟨q, w.calls⟩
  | .error fault q => .error fault ⟨q, w.calls⟩

def call (solver : Matrices α → Option τ × Matrices α) : WatchedM α (Option τ) := do
  let session ← quietly (ProgramM.ask Program.activeSession)
  modify fun w => { w with calls := w.calls ++ [session.matrices] }
  quietly (ProgramM.editLent solver)

/-- Solves as `ProgramM.solveWith` does, and keeps account of the calls. -/
def solveWith [Zero α] [BEq α] (solver : Matrices α → Option τ × Matrices α) : WatchedM α τ :=
  ProgramM.solveThrough quietly (call solver)

theorem run_quietly (x : ProgramM α β) (w : Watched α) :
    (quietly x).run w =
      match x.run w.program with
      | .ok b q => .ok b ⟨q, w.calls⟩
      | .error fault q => .error fault ⟨q, w.calls⟩ :=
  rfl

theorem run_call (solver : Matrices α → Option τ × Matrices α) (w : Watched α) :
    (call solver).run w =
      match w.program.session with
      | none => .error (.refused .notCheckedOut) w
      | some s => .ok (solver s.matrices).1
          ⟨{ w.program with session := some (s.withMatrices (solver s.matrices).2) },
            w.calls ++ [s.matrices]⟩ := by
  rw [call, EStateM.run_bind, run_quietly, ProgramM.run_ask, Program.activeSession]
  cases hs : w.program.session with
  | none => rfl
  | some s =>
      dsimp only
      rw [EStateM.run_bind, EStateM.run_modify]
      dsimp only
      rw [run_quietly, ProgramM.run_editLent, hs]

theorem run_solveWith_of_session [Zero α] [BEq α] {w : Watched α}
    (hlent : w.program.session.isSome) (solver : Matrices α → Option τ × Matrices α) :
    (solveWith solver).run w = .error (.refused .checkedOut) w := by
  rw [solveWith, ProgramM.solveThrough, EStateM.run_bind, run_quietly, ProgramM.checkOut,
    ProgramM.run_requireIdle_then, if_pos hlent]

def unwatch : EStateM.Result Fault (Watched α) β → EStateM.Result Fault (Program α) β
  | .ok b w => .ok b w.program
  | .error fault w => .error fault w.program

/-- One computation is the other under watch. -/
def Watches (x : WatchedM α β) (y : ProgramM α β) : Prop :=
  ∀ w, unwatch (x.run w) = y.run w.program

namespace Watches

theorem pure (b : β) : Watches (Pure.pure b : WatchedM α β) (Pure.pure b) := fun _ => rfl

theorem bind {x : WatchedM α β} {y : ProgramM α β} {f : β → WatchedM α γ} {g : β → ProgramM α γ}
    (hx : Watches x y) (hf : ∀ b, Watches (f b) (g b)) : Watches (x >>= f) (y >>= g) := by
  intro w
  have hxw := hx w
  rw [ProgramM.run_bind, ← hxw, EStateM.run_bind]
  cases x.run w with
  | ok b w' => exact hf b w'
  | error fault w' => rfl

theorem quietly (x : ProgramM α β) : Watches (WatchedM.quietly x) x := by
  intro w
  show unwatch (match x.run w.program with
    | .ok b q => .ok b ⟨q, w.calls⟩
    | .error fault q => .error fault ⟨q, w.calls⟩) = _
  cases x.run w.program <;> rfl

theorem call (solver : Matrices α → Option τ × Matrices α) :
    Watches (WatchedM.call solver) (ProgramM.editLent solver) := by
  intro w
  rw [run_call, ProgramM.run_editLent]
  cases w.program.session <;> rfl

theorem solveWith [Zero α] [BEq α] (solver : Matrices α → Option τ × Matrices α) :
    Watches (WatchedM.solveWith solver) (ProgramM.solveWith solver) := by
  refine (quietly _).bind fun _ => (call solver).bind fun status? => ?_
  cases status? with
  | none => exact quietly _
  | some status => exact (quietly _).bind fun _ => pure status

end Watches

end WatchedM

/-! ### Questions -/

theorem Question.run_ask [Scalar α] (question : Question α) (p : Program α) :
    question.ask.run p =
      match question.answer p with
      | .ok reply => .ok reply p
      | .error fault => .error fault p := by
  rw [ask, ProgramM.run_bind, ProgramM.run_get]
  dsimp only
  rw [ProgramM.run_lift]
  cases question.answer p <;> rfl

/-! ### Refused calls -/

/-- No call that the program refuses changes it, and no solver is called. -/
structure Program.RefusesCleanly [Scalar α] (p : Program α) : Prop where
  operation : ∀ (op : Operation α) cause q,
    op.perform.run p = .error (.refused cause) q → q = p
  question : ∀ (question : Question α) cause q,
    question.ask.run p = .error (.refused cause) q → q = p
  /-- Under watch a program is solved as it is without. -/
  watched : ∀ {τ : Type} (solver : Matrices α → Option τ × Matrices α) calls,
    WatchedM.unwatch ((WatchedM.solveWith solver).run ⟨p, calls⟩) =
      (ProgramM.solveWith solver).run p
  uncalled : ∀ {τ : Type} (solver : Matrices α → Option τ × Matrices α) calls cause w,
    (WatchedM.solveWith solver).run ⟨p, calls⟩ = .error (.refused cause) w → w = ⟨p, calls⟩

theorem Program.Coherent.refusesCleanly [Scalar α] {p : Program α} (h : p.Coherent) :
    p.RefusesCleanly where
  operation op cause q hrun := ((Operation.run_eq_refused_iff h).1 hrun).2
  question question cause q hrun := by
    rw [question.run_ask] at hrun
    split at hrun
    · cases hrun
    · cases hrun
      rfl
  watched solver calls := WatchedM.Watches.solveWith solver ⟨p, calls⟩
  uncalled solver calls cause w hrun := by
    by_cases hlent : p.session.isSome
    · rw [WatchedM.run_solveWith_of_session (w := ⟨p, calls⟩) hlent] at hrun
      cases hrun
      rfl
    · -- a program that is not lent refuses no solver
      have hwatched := WatchedM.Watches.solveWith solver ⟨p, calls⟩
      rw [hrun, ProgramM.run_solveWith h, if_neg hlent] at hwatched
      dsimp only at hwatched
      split at hwatched
      · cases hwatched
      · split at hwatched <;> cases hwatched

/-- A refused call leaves every reachable program as it was. -/
theorem Operation.performAll_refusesCleanly [Scalar α] (id : Nat) (settings : Settings α)
    (ops : List (Operation α)) : (performAll (.empty id settings) ops).RefusesCleanly :=
  (coherent_of_empty id settings ops).refusesCleanly

end Socp
