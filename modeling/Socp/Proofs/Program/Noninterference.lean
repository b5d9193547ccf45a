import Socp.Question
import Socp.Proofs.Program.Relocation
import Socp.Proofs.Scalar.Extended

/-!
Reports have no influence. Two programs that differ in whether they report, and to which target, say
the same whatever is done to both, and hold the same graph and the same lent matrices after every
call, even where a target takes less than it is offered or fails. No call but a check-out and a
check-in reports at all, and neither looks at what has become of its report.
-/

namespace Socp

variable {α β γ : Type}

/-! ### Programs that differ in reports -/

namespace Program

/-- The programs are the same but for whether they report and to which target. -/
structure SameButReports (p q : Program α) : Prop where
  vars_eq : q.vars = p.vars
  cones_eq : q.cones = p.cones
  constraints_eq : q.constraints = p.constraints
  kindCounts_eq : q.kindCounts = p.kindCounts
  session_eq : q.session = p.session
  feasibilityTol_eq : q.settings.feasibilityTol = p.settings.feasibilityTol
  dropZeros_eq : q.settings.dropZeros = p.settings.dropZeros

/-- The program with other wishes for its reports. -/
def reporting (p : Program α) (verbose : Bool) (target : PrintTarget) : Program α :=
  { p with settings := { p.settings with verbose := verbose }, output := target }

namespace SameButReports

variable {p q : Program α}

theorem exists_reporting (h : p.SameButReports q) :
    ∃ verbose target, q = p.reporting verbose target := by
  obtain ⟨vars, cones, constraints, kindCounts, session, ⟨verbose, tol, drop⟩, output⟩ := q
  obtain ⟨rfl, rfl, rfl, rfl, rfl, rfl, rfl⟩ := h
  exact ⟨verbose, output, rfl⟩

theorem view_eq (h : p.SameButReports q) {view : Program α → γ}
    (hview : ∀ verbose target, view (p.reporting verbose target) = view p) :
    view q = view p := by
  obtain ⟨verbose, target, rfl⟩ := h.exists_reporting
  exact hview verbose target

theorem output (h : p.SameButReports q) (target target' : PrintTarget) :
    { p with output := target }.SameButReports { q with output := target' } :=
  { h with }

end SameButReports

/-- The same result, with programs that differ in reports. -/
inductive SameOutcome :
    EStateM.Result Fault (Program α) β → EStateM.Result Fault (Program α) β → Prop
  | ok {b p q} (h : p.SameButReports q) : SameOutcome (.ok b p) (.ok b q)
  | error {fault p q} (h : p.SameButReports q) : SameOutcome (.error fault p) (.error fault q)

end Program

/-- A question about whether there are reports, or about what has been reported. -/
def Question.ofReports : Question α → Bool
  | .settings | .printed => true
  | _ => false

theorem Program.SameButReports.answer_eq [Scalar α] {p q : Program α} (h : p.SameButReports q)
    {question : Question α} (hq : question.ofReports = false) :
    question.answer q = question.answer p := by
  obtain ⟨verbose, target, rfl⟩ := h.exists_reporting
  cases question with
  | settings | printed => cases hq
  | _ => rfl

theorem CscMatrix.WellFormed.isSome_nnz? {A : CscMatrix α} (h : A.WellFormed) : A.nnz?.isSome := by
  rw [Option.isSome_iff_ne_none]
  intro hnone
  rw [nnz?] at hnone
  rw [WellFormed, checkFormat?, hnone] at h
  split at h
  · cases h
  · split at h <;> cases h

theorem exists_of_bind_eq_ok {ε : Type} {x : Except ε β} {f : β → Except ε γ} {c : γ}
    (h : x >>= f = .ok c) : ∃ b, x = .ok b ∧ f b = .ok c := by
  cases x with
  | error e => cases h
  | ok b => exact ⟨b, rfl, h⟩

theorem Program.isSome_nnz?_of_newSession [Zero α] {p : Program α} {s : Session α}
    (hs : p.newSession = .ok s) : s.matrices.A.nnz?.isSome := by
  obtain ⟨M, hM, hs⟩ := exists_of_bind_eq_ok hs
  cases hs
  obtain ⟨vars, -, hM⟩ := exists_of_bind_eq_ok hM
  obtain ⟨cons, -, hM⟩ := exists_of_bind_eq_ok hM
  obtain ⟨entries, -, hM⟩ := exists_of_bind_eq_ok hM
  obtain ⟨A, -, hM⟩ := exists_of_bind_eq_ok hM
  split at hM
  case isTrue => cases hM
  case isFalse hformed =>
    cases hM
    exact (not_not.1 hformed).isSome_nnz?

namespace ProgramM

open Program (SameOutcome SameButReports)

/-! ### Computations without regard to reports -/

/-- Whether programs report, and what becomes of it, has no influence on how `x` ends. -/
def Blind (x : ProgramM α β) : Prop :=
  ∀ p q : Program α, p.SameButReports q → SameOutcome (x.run p) (x.run q)

namespace Blind

theorem pure (b : β) : Blind (Pure.pure b : ProgramM α β) := fun _ _ h => .ok h

theorem refuse (cause : ProgramError) : Blind (ProgramM.refuse cause : ProgramM α β) :=
  fun _ _ h => .error h

theorem abort : Blind (ProgramM.abort : ProgramM α β) := fun _ _ h => .error h

theorem bind {x : ProgramM α β} {f : β → ProgramM α γ} (hx : Blind x) (hf : ∀ b, Blind (f b)) :
    Blind (x >>= f) := by
  intro p q h
  have hxpq := hx p q h
  rw [run_bind, run_bind]
  generalize x.run p = r at hxpq
  generalize x.run q = r' at hxpq
  cases hxpq with
  | ok h' => exact hf _ _ _ h'
  | error h' => exact .error h'

theorem map {x : ProgramM α β} (hx : Blind x) (f : β → γ) : Blind (f <$> x) := by
  rw [map_eq_pure_bind]
  exact hx.bind fun b => .pure (f b)

theorem lift (answer : Except Fault β) : Blind (ProgramM.lift answer : ProgramM α β) := by
  cases answer with
  | ok b => exact .pure b
  | error fault => exact fun _ _ h => .error h

/-- What is done next may depend on the program, but not on its reports. -/
theorem get_bind {f : Program α → ProgramM α β} (hf : ∀ p, Blind (f p))
    (hview : ∀ p verbose target, f (Program.reporting p verbose target) = f p) :
    Blind (get >>= f) := by
  intro p q h
  have hnext : f q = f p := h.view_eq (hview p)
  rw [run_bind, run_bind, run_get, run_get]
  dsimp only
  rw [hnext]
  exact hf p p q h

theorem ask {question : Program α → Except ProgramError β}
    (hview : ∀ p verbose target, question (Program.reporting p verbose target) = question p) :
    Blind (ProgramM.ask question) := by
  refine get_bind (fun p => .lift _) ?_
  intro p verbose target
  rw [hview]

theorem change {f : Program α → Program α}
    (hf : ∀ p q, p.SameButReports q → (f p).SameButReports (f q)) :
    Blind (modify f : ProgramM α PUnit) :=
  fun p q h => .ok (hf p q h)

/-- A step that may stop before the rest is done. -/
theorem guarded {c : Prop} [Decidable c] {stop : ProgramM α Unit} {rest : Unit → ProgramM α β}
    (hstop : Blind stop) (hrest : ∀ u, Blind (rest u)) :
    Blind (if c then stop >>= rest else rest ()) := by
  split
  · exact hstop.bind hrest
  · exact hrest ()

theorem forM {body : γ → ProgramM α PUnit} (hbody : ∀ t, Blind (body t)) (l : List γ) :
    Blind (l.forM body) := by
  induction l with
  | nil => exact .pure _
  | cons t l ih => exact (hbody t).bind fun _ => ih

theorem requireIdle : Blind (ProgramM.requireIdle : ProgramM α Unit) := by
  refine get_bind (fun p => ?_) fun p b target => rfl
  split
  · exact .refuse _
  · exact .pure _

theorem exists_run_report {block : Program α → Except Fault (List Text)} {p : Program α}
    (hblock : ∃ text, block p = .ok text) :
    ∃ target, (ProgramM.report block).run p = .ok ⟨⟩ { p with output := target } := by
  obtain ⟨text, htext⟩ := hblock
  rw [run_report, htext]
  split
  · exact ⟨_, rfl⟩
  · exact ⟨p.output, rfl⟩

theorem report {block : Program α → Except Fault (List Text)}
    (hblock : ∀ p, ∃ text, block p = .ok text) : Blind (ProgramM.report block) := by
  intro p q h
  obtain ⟨target, hp⟩ := exists_run_report (hblock p)
  obtain ⟨target', hq⟩ := exists_run_report (hblock q)
  rw [hp, hq]
  exact .ok (h.output target target')

theorem setVariables (s : Store .var (Variable α)) : Blind (ProgramM.setVariables s) := by
  refine .change ?_
  intro p q h
  exact { h with vars_eq := rfl }

theorem setCones (s : Store .cone Cone) : Blind (ProgramM.setCones s : ProgramM α Unit) := by
  refine .change ?_
  intro p q h
  exact { h with cones_eq := rfl }

theorem setConstraints (s : Store .constraint (Constraint α)) :
    Blind (ProgramM.setConstraints s) := by
  refine .change ?_
  intro p q h
  exact { h with constraints_eq := rfl }

theorem updateVariable (v : VariableId) (f : Variable α → Variable α) :
    Blind (ProgramM.updateVariable v f) :=
  (ask fun _ _ _ => rfl).bind setVariables

theorem updateConstraint (con : ConstraintId) (f : Constraint α → Constraint α) :
    Blind (ProgramM.updateConstraint con f) :=
  (ask fun _ _ _ => rfl).bind setConstraints

/-! ### Edits -/

theorem createCone [Zero α] (kind : ConeKind) (n : Nat) :
    Blind (ProgramM.createCone kind n : ProgramM α ConeId) := by
  refine requireIdle.bind fun _ => ?_
  refine guarded (.refuse _) fun _ => ?_
  refine get_bind (fun p => ?_) fun p verbose target => rfl
  refine (setVariables _).bind fun _ => ?_
  refine (lift _).bind fun cone => ?_
  refine (setCones _).bind fun _ => ?_
  refine guarded .abort fun _ => ?_
  refine (change ?_).bind fun _ => .pure _
  intro p q h
  exact { h with kindCounts_eq := congrArg (·.increment kind) h.kindCounts_eq }

theorem createConstraint [Zero α] :
    Blind (ProgramM.createConstraint : ProgramM α ConstraintId) := by
  refine requireIdle.bind fun _ => ?_
  refine get_bind (fun p => ?_) fun p verbose target => rfl
  exact (setConstraints _).bind fun _ => .pure _

theorem deleteVariable (v : VariableId) : Blind (ProgramM.deleteVariable v : ProgramM α Unit) := by
  refine (change ?_).bind fun _ => ?_
  · intro p q h
    exact { h with constraints_eq := congrArg (·.mapValues (·.eraseTerm v)) h.constraints_eq }
  · exact (ask fun _ _ _ => rfl).bind fun _ => setVariables _

theorem deleteCone (id : ConeId) : Blind (ProgramM.deleteCone id : ProgramM α Unit) := by
  refine requireIdle.bind fun _ => ?_
  refine (ask fun _ _ _ => rfl).bind fun removed => ?_
  refine (setCones _).bind fun _ => ?_
  refine (forM deleteVariable _).bind fun _ => ?_
  refine get_bind (fun p => ?_) fun p verbose target => rfl
  refine (lift _).bind fun counts => change ?_
  intro p q h
  exact { h with kindCounts_eq := rfl }

theorem deleteConstraint (con : ConstraintId) :
    Blind (ProgramM.deleteConstraint con : ProgramM α Unit) := by
  refine requireIdle.bind fun _ => ?_
  exact (ask fun _ _ _ => rfl).bind fun _ => setConstraints _

theorem addVariable [Zero α] [BEq α] (con : ConstraintId) (v : VariableId) (a : α) :
    Blind (ProgramM.addVariable con v a) := by
  refine requireIdle.bind fun _ => ?_
  refine (ask fun _ _ _ => rfl).bind fun _ => ?_
  exact get_bind (fun p => updateConstraint con _) fun p verbose target => rfl

theorem setConstrainedValue (con : ConstraintId) (rhs : α) :
    Blind (ProgramM.setConstrainedValue con rhs) :=
  requireIdle.bind fun _ => updateConstraint con _

theorem setObjectiveCoefficient (v : VariableId) (c : α) :
    Blind (ProgramM.setObjectiveCoefficient v c) :=
  requireIdle.bind fun _ => updateVariable v _

theorem setPrimalValue (v : VariableId) (x : α) : Blind (ProgramM.setPrimalValue v x) :=
  requireIdle.bind fun _ => updateVariable v _

theorem setDualValue (v : VariableId) (s : α) : Blind (ProgramM.setDualValue v s) :=
  requireIdle.bind fun _ => updateVariable v _

theorem addToObjective [Add α] [Mul α] (e : Expression α) (scale : α) :
    Blind (e.addToObjective scale) := by
  refine requireIdle.bind fun _ => ?_
  refine (ask fun _ _ _ => rfl).bind fun pending => ?_
  refine forM (fun t => ?_) _
  exact setObjectiveCoefficient t.1 t.2

theorem chooseSettings (choice : SettingsChoice α) : Blind (ProgramM.chooseSettings choice) := by
  refine change ?_
  intro p q h
  refine { h with feasibilityTol_eq := ?_, dropZeros_eq := ?_ }
  · exact congrArg choice.feasibilityTol.getD h.feasibilityTol_eq
  · exact congrArg choice.dropZeros.getD h.dropZeros_eq

/-! ### Lending and taking back -/

/-- The report on a loan is made once the loan is there, and it can be made if the column starts of
the lent matrix are complete. -/
theorem lend [Zero α] [BEq α] {s : Session α} (hs : s.matrices.A.nnz?.isSome) :
    Blind (modify (fun p => { p with session := some s }) >>= fun _ =>
      ProgramM.report Program.checkoutBlock : ProgramM α Unit) := by
  obtain ⟨M, columns, rows⟩ := s
  obtain ⟨n, hn⟩ : ∃ n, M.A.nnz? = some n := Option.isSome_iff_exists.1 hs
  have hblock : ∀ p : Program α, ∃ text,
      Program.checkoutBlock { p with session := some ⟨M, columns, rows⟩ } = .ok text := by
    intro p
    rw [Program.checkoutBlock]
    dsimp only
    rw [hn]
    exact ⟨_, rfl⟩
  intro p q h
  rw [run_bind, run_bind, run_modify, run_modify]
  dsimp only
  obtain ⟨target, hp⟩ := exists_run_report (hblock p)
  obtain ⟨target', hq⟩ := exists_run_report (hblock q)
  rw [hp, hq]
  exact .ok { h with session_eq := rfl }

theorem checkOut [Zero α] [BEq α] : Blind (ProgramM.checkOut : ProgramM α Unit) := by
  refine requireIdle.bind fun _ => ?_
  refine get_bind (fun p => ?_) fun p verbose target => rfl
  cases hs : p.newSession with
  | error fault => exact fun _ _ h => .error h
  | ok s => exact lend (Program.isSome_nnz?_of_newSession hs)

theorem checkIn : Blind (ProgramM.checkIn : ProgramM α Unit) := by
  refine (ask fun _ _ _ => rfl).bind fun s => ?_
  refine guarded .abort fun _ => ?_
  refine (change ?_).bind fun _ => ?_
  · intro p q h
    exact { h with session_eq := rfl }
  · refine (forM (fun t => ?_) _).bind fun _ => (forM (fun t => ?_) _).bind fun _ => ?_
    · exact updateVariable t.1 _
    · exact updateConstraint t.1 _
    · exact report fun p => ⟨_, rfl⟩

theorem editLent (f : Matrices α → β × Matrices α) : Blind (ProgramM.editLent f) := by
  refine (ask fun _ _ _ => rfl).bind fun s => ?_
  refine (change ?_).bind fun _ => .pure _
  intro p q h
  exact { h with session_eq := rfl }

theorem solveWith [Zero α] [BEq α] (solver : Matrices α → Option γ × Matrices α) :
    Blind (ProgramM.solveWith solver) := by
  refine checkOut.bind fun _ => (editLent solver).bind fun status? => ?_
  cases status? with
  | none => exact .abort
  | some status => exact checkIn.bind fun _ => .pure status

end Blind

end ProgramM

/-! ### Operations -/

namespace Operation

open ProgramM (Blind)

variable [Zero α] [Add α] [Mul α] [BEq α]

theorem blind_perform (op : Operation α) : Blind op.perform := by
  cases op with
  | createOrthant => exact (Blind.createCone .orthant 1).map _
  | createSecondOrder n => exact (Blind.createCone .secondOrder n).map _
  | createRotated n => exact (Blind.createCone .rotated n).map _
  | createConstraint => exact Blind.createConstraint.map _
  | deleteCone id => exact (Blind.deleteCone id).bind fun _ => .pure _
  | deleteConstraint con => exact (Blind.deleteConstraint con).bind fun _ => .pure _
  | addVariable con v a => exact (Blind.addVariable con v a).bind fun _ => .pure _
  | setConstrainedValue con rhs => exact (Blind.setConstrainedValue con rhs).bind fun _ => .pure _
  | setObjectiveCoefficient v c =>
      exact (Blind.setObjectiveCoefficient v c).bind fun _ => .pure _
  | setPrimalValue v x => exact (Blind.setPrimalValue v x).bind fun _ => .pure _
  | setDualValue v s => exact (Blind.setDualValue v s).bind fun _ => .pure _
  | addToObjective e scale => exact (Blind.addToObjective e scale).bind fun _ => .pure _
  | chooseSettings choice => exact (Blind.chooseSettings choice).bind fun _ => .pure _
  | printTo target =>
      refine (Blind.change ?_).bind fun _ => .pure _
      exact fun p q h => h.output target target
  | checkOut => exact Blind.checkOut.bind fun _ => .pure _
  | checkIn => exact Blind.checkIn.bind fun _ => .pure _
  | editLent f => exact (Blind.editLent _).bind fun _ => .pure _
  | solveWith solver => exact (Blind.solveWith solver).map _

end Operation

/-! ### Histories -/

/-- Nothing in the programs tells them apart, and no answer does, except about reports. -/
structure Program.Indistinct [Scalar α] (p q : Program α) : Prop extends SameButReports p q where
  answer_eq : ∀ question : Question α, question.ofReports = false →
    question.answer q = question.answer p

theorem Program.SameButReports.indistinct [Scalar α] {p q : Program α} (h : p.SameButReports q) :
    p.Indistinct q :=
  ⟨h, fun _ hq => h.answer_eq hq⟩

/-- Two calls of the same operation that say the same, before and after which nothing tells the
programs apart. -/
structure Event.Indistinct [Scalar α] (e f : Event α) : Prop where
  operation_eq : f.operation = e.operation
  reply_eq : f.reply = e.reply
  before : e.before.Indistinct f.before
  after : e.after.Indistinct f.after

namespace Operation

variable [Scalar α] {p q : Program α}

theorem indistinct_event (h : p.SameButReports q) (op : Operation α) :
    (op.event p).Indistinct (op.event q) := by
  have houtcome := op.blind_perform p q h
  have hboth : (op.event q).reply = (op.event p).reply ∧
      (op.event p).after.SameButReports (op.event q).after := by
    rw [event, event]
    generalize op.perform.run p = r at houtcome
    generalize op.perform.run q = r' at houtcome
    cases houtcome with
    | ok h' => exact ⟨rfl, h'⟩
    | error h' => exact ⟨rfl, h'⟩
  exact ⟨rfl, hboth.1, h.indistinct, hboth.2.indistinct⟩

/-- Whatever is done to two programs that differ in reports, and however their targets fail, nothing
but the reports ever tells them apart. -/
theorem performAll_indistinct (h : p.SameButReports q) (ops : List (Operation α)) :
    List.Forall₂ Event.Indistinct (trace p ops) (trace q ops) ∧
      (performAll p ops).Indistinct (performAll q ops) := by
  induction ops generalizing p q with
  | nil => exact ⟨.nil, h.indistinct⟩
  | cons op ops ih =>
      have hevent := indistinct_event h op
      obtain ⟨htrace, hend⟩ := ih hevent.after.toSameButReports
      rw [performAll_cons, performAll_cons]
      exact ⟨.cons hevent htrace, hend⟩

/-- A stream that gives up in the middle of a line, against a program that does not report, with a
solver that spoils the lengths and calls that are refused. -/
theorem performAll_indistinct_from_silence :
    let p : Program (Extended ℚ) :=
      (Program.empty 0 ⟨true, .finite 1, true⟩).printTo (.stream (.limited 50 true))
    let q : Program (Extended ℚ) := (Program.empty 0 ⟨false, .finite 1, true⟩).printTo .sink
    let ops : List (Operation (Extended ℚ)) := [.createSecondOrder 2, .createConstraint,
      .addVariable ⟨0, 0, 0⟩ ⟨0, 1, 0⟩ (.finite 2), .checkOut, .deleteCone ⟨0, 0, 0⟩, .checkIn,
      .solveWith fun M => (none, { M with x := #[] }), .checkIn, .checkOut]
    p.SameButReports q ∧ List.Forall₂ Event.Indistinct (trace p ops) (trace q ops) ∧
      (performAll p ops).Indistinct (performAll q ops) := by
  intro p q ops
  have h : p.SameButReports q := ⟨rfl, rfl, rfl, rfl, rfl, rfl, rfl⟩
  exact ⟨h, performAll_indistinct h ops⟩

end Operation

end Socp
