import Socp.Program.Basic

/-!
How the building blocks of an operation run: what they answer and which program they leave behind.
-/

namespace Socp

namespace ProgramM

variable {α β γ : Type}

@[simp] theorem run_pure (b : β) (p : Program α) : (pure b : ProgramM α β).run p = .ok b p := rfl

@[simp] theorem run_get (p : Program α) : (get : ProgramM α (Program α)).run p = .ok p p := rfl

@[simp] theorem run_modify (f : Program α → Program α) (p : Program α) :
    (modify f : ProgramM α PUnit).run p = .ok ⟨⟩ (f p) := rfl

@[simp] theorem run_refuse (cause : ProgramError) (p : Program α) :
    (refuse cause : ProgramM α β).run p = .error (.refused cause) p := rfl

@[simp] theorem run_abort (p : Program α) : (abort : ProgramM α β).run p = .error .aborted p := rfl

theorem run_bind (x : ProgramM α β) (f : β → ProgramM α γ) (p : Program α) :
    (x >>= f).run p =
      match x.run p with
      | .ok b q => (f b).run q
      | .error fault q => .error fault q := by
  simp only [EStateM.run, bind, EStateM.bind]
  rcases x p with ⟨b, q⟩ | ⟨fault, q⟩ <;> rfl

@[simp] theorem run_lift (answer : Except Fault β) (p : Program α) :
    (lift answer : ProgramM α β).run p =
      match answer with
      | .ok b => .ok b p
      | .error fault => .error fault p := by
  cases answer <;> rfl

@[simp] theorem run_ask (question : Program α → Except ProgramError β) (p : Program α) :
    (ask question).run p =
      match question p with
      | .ok b => .ok b p
      | .error cause => .error (.refused cause) p := by
  rw [ask, run_bind, run_get]
  simp only [run_lift]
  cases question p <;> rfl

@[simp] theorem run_requireIdle (p : Program α) :
    (requireIdle : ProgramM α Unit).run p =
      if p.session.isSome then .error (.refused .checkedOut) p else .ok () p := by
  rw [requireIdle, run_bind, run_get]
  simp only
  split <;> rfl

@[simp] theorem run_updateVariable (v : VariableId) (f : Variable α → Variable α)
    (p : Program α) :
    (updateVariable v f).run p =
      match p.vars.update v f with
      | .ok s => .ok () { p with vars := s }
      | .error cause => .error (.refused cause) p := by
  rw [updateVariable, run_bind, run_ask]
  cases p.vars.update v f <;> rfl

@[simp] theorem run_updateConstraint (con : ConstraintId) (f : Constraint α → Constraint α)
    (p : Program α) :
    (updateConstraint con f).run p =
      match p.constraints.update con f with
      | .ok s => .ok () { p with constraints := s }
      | .error cause => .error (.refused cause) p := by
  rw [updateConstraint, run_bind, run_ask]
  cases p.constraints.update con f <;> rfl

@[simp] theorem run_report (block : Program α → Except Fault (List Text)) (p : Program α) :
    (report block).run p =
      if p.settings.verbose then
        match block p with
        | .ok text => .ok () { p with output := p.output.write text }
        | .error fault => .error fault p
      else .ok () p := by
  rw [report, run_bind, run_get]
  simp only
  split
  · rw [run_bind, run_lift]
    cases block p <;> rfl
  · rfl

end ProgramM

end Socp
