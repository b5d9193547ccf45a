import Socp.Operation
import Socp.Proofs.Program.Loan
import Socp.Proofs.Store.Standing

/-!
What each operation on a coherent program can come to, said once for all of them. An operation is
refused for a cause that can be told beforehand, and then nothing has changed; or it is carried out,
and there are few ways in which that ends.
-/

namespace Socp

variable {α : Type}

/-! ### Refusals -/

namespace Expression

def complaint? (e : Expression α) (p : Program α) : Option ProgramError :=
  e.summands.findSome? fun t => p.vars.complaint? t.var

end Expression

namespace Operation

/-- Whether an operation changes the graph or lends it. -/
def isEdit : Operation α → Bool
  | .chooseSettings _ | .printTo _ | .checkIn | .editLent _ => false
  | _ => true

/-- Whether an operation works on the lent matrices. -/
def needsLoan : Operation α → Bool
  | .checkIn | .editLent _ => true
  | _ => false

def dimensionObjection? (kind : ConeKind) (n : Nat) : Option ProgramError :=
  if n < kind.minDim then some (.badConeDimension kind n kind.minDim) else none

/-- Why an edit of a program that is not lent is refused. Handles of variables are looked at before
those of constraints. -/
def objection? (p : Program α) : Operation α → Option ProgramError
  | .createOrthant => dimensionObjection? .orthant 1
  | .createSecondOrder n => dimensionObjection? .secondOrder n
  | .createRotated n => dimensionObjection? .rotated n
  | .deleteCone id => p.cones.complaint? id
  | .deleteConstraint con | .setConstrainedValue con _ => p.constraints.complaint? con
  | .addVariable con v _ => (p.vars.complaint? v).or (p.constraints.complaint? con)
  | .setObjectiveCoefficient v _ | .setPrimalValue v _ | .setDualValue v _ => p.vars.complaint? v
  | .addToObjective e _ => e.complaint? p
  | _ => none

/-- Why an operation is refused. The loan is looked at before any argument. -/
def refusal? (p : Program α) (op : Operation α) : Option ProgramError :=
  if op.isEdit then if p.session.isSome then some .checkedOut else op.objection? p
  else if op.needsLoan && p.session.isNone then some .notCheckedOut
  else none

theorem refusal?_of_isEdit (p : Program α) {op : Operation α} (hop : op.isEdit) :
    op.refusal? p = if p.session.isSome then some .checkedOut else op.objection? p := by
  rw [refusal?, if_pos hop]

/-! ### Results -/

def newCone? : Operation α → Option (ConeKind × Nat)
  | .createOrthant => some (.orthant, 1)
  | .createSecondOrder n => some (.secondOrder, n)
  | .createRotated n => some (.rotated, n)
  | _ => none

/-- The variable that an operation gives a new number, and how. -/
def variableEdit? : Operation α → Option (VariableId × (Variable α → Variable α))
  | .setObjectiveCoefficient v c => some (v, ({ · with objective := c }))
  | .setPrimalValue v x => some (v, ({ · with primal := x }))
  | .setDualValue v s => some (v, ({ · with dual := s }))
  | _ => none

theorem cone_of_variableEdit? {op : Operation α} {v : VariableId} {f : Variable α → Variable α}
    (hop : op.variableEdit? = some (v, f)) (x : Variable α) : (f x).cone = x.cone := by
  cases op <;> cases hop <;> rfl

variable [Zero α] [Add α] [Mul α] [BEq α]

/-- The ways in which an operation ends that is not refused. -/
inductive Effect (p : Program α) :
    Operation α → EStateM.Result Fault (Program α) Answer → Prop
  | coneCreated {op kind n} {cone : Cone} (hop : op.newCone? = some (kind, n))
      (hidle : p.session = none) (hkind : cone.kind = kind) (hdim : cone.dim = n)
      (hvars : cone.vars =
        (p.vars.insertCopies (Variable.blank p.cones.nextHandle : Variable α) cone.dim).1) :
      Effect p op (.ok (.cone p.cones.nextHandle) (p.withCone cone))
  | constraintCreated (hidle : p.session = none) :
      Effect p .createConstraint (.ok (.constraint p.constraints.nextHandle)
        { p with constraints := (p.constraints.insert .blank).2 })
  | coneDeleted {id cone} (hidle : p.session = none) (hcone : p.cones.find id = .ok cone) :
      Effect p (.deleteCone id) (.ok .done (p.withoutCone id cone))
  | constraintDeleted {con c} (hidle : p.session = none) (hcon : p.constraints.find con = .ok c) :
      Effect p (.deleteConstraint con)
        (.ok .done { p with constraints := p.constraints.assign con.slot none })
  | termSet {con v a} (hidle : p.session = none) (hv : v ∈ p.vars.handles) :
      Effect p (.addVariable con v a) (.ok .done { p with
        constraints := p.constraints.adjust con (·.setTerm v a p.settings.dropZeros) })
  | rhsSet {con rhs} (hidle : p.session = none) :
      Effect p (.setConstrainedValue con rhs)
        (.ok .done { p with constraints := p.constraints.adjust con ({ · with rhs := rhs }) })
  | variableSet {op v f} (hop : op.variableEdit? = some (v, f)) (hidle : p.session = none) :
      Effect p op (.ok .done { p with vars := p.vars.adjust v f })
  | objectiveAdded {e scale pending} (hidle : p.session = none)
      (hpending : e.pendingObjective p scale = .ok pending) :
      Effect p (.addToObjective e scale) (.ok .done { p with
        vars := p.vars.adjustAll
          (pending.reverse.map fun t => (t.1, ({ · with objective := t.2 }))) })
  | settingsChosen {choice} :
      Effect p (.chooseSettings choice)
        (.ok .done { p with settings := p.settings.override choice })
  | targetChosen {target} : Effect p (.printTo target) (.ok .done (p.printTo target))
  | lent (hidle : p.session = none) : Effect p .checkOut (.ok .done p.lent)
  | returned {s} (hs : p.session = some s) (hret : s.Returnable) :
      Effect p .checkIn (.ok .done (p.returned s))
  | kept {s} (hs : p.session = some s) (hret : ¬s.Returnable) :
      Effect p .checkIn (.error .aborted p)
  | lentEdited {f s} (hs : p.session = some s) :
      Effect p (.editLent f)
        (.ok .done { p with session := some (s.withMatrices (f s.matrices)) })
  | solved {solver status M} (hidle : p.session = none)
      (hsolver : solver p.exported = (some status, M))
      (hret : (p.loan.withMatrices M).Returnable) :
      Effect p (.solveWith solver)
        (.ok (.status status) ((p.lentAs M).returned (p.loan.withMatrices M)))
  | unsolved {solver status? M} (hidle : p.session = none)
      (hsolver : solver p.exported = (status?, M))
      (hkept : status? = none ∨ ¬(p.loan.withMatrices M).Returnable) :
      Effect p (.solveWith solver) (.error .aborted (p.lentAs M))

/-- An operation is refused, or else carried out. -/
inductive Outcome (p : Program α) (op : Operation α) :
    EStateM.Result Fault (Program α) Answer → Prop
  | refused {cause} (h : op.refusal? p = some cause) : Outcome p op (.error (.refused cause) p)
  | carriedOut {r} (h : op.refusal? p = none) (he : Effect p op r) : Outcome p op r

end Operation

/-! ### Runs -/

def mapAnswer {β γ : Type} (f : β → γ) :
    EStateM.Result Fault (Program α) β → EStateM.Result Fault (Program α) γ
  | .ok b q => .ok (f b) q
  | .error fault q => .error fault q

theorem ProgramM.run_map {β γ : Type} (f : β → γ) (x : ProgramM α β) (p : Program α) :
    (f <$> x).run p = mapAnswer f (x.run p) := by
  rw [← bind_pure_comp, ProgramM.run_bind]
  cases x.run p <;> rfl

theorem Operation.run_done (x : ProgramM α Unit) (p : Program α) :
    (perform.done x).run p = mapAnswer (fun _ => .done) (x.run p) := by
  rw [perform.done, ProgramM.run_bind]
  cases x.run p <;> rfl

variable {p : Program α}

namespace Expression

variable [Add α] [Mul α]

theorem pend_eq_error_iff {scale : α} {pending : List (VariableId × α)} {t : Summand α}
    {cause : ProgramError} (hlive : ∀ e ∈ pending, e.1 ∈ p.vars.handles) :
    pend p scale pending t = .error cause ↔ p.vars.complaint? t.var = some cause := by
  rw [Store.complaint?_eq_some_iff, pend]
  cases hlook : pending.lookup t.var with
  | some c =>
      obtain ⟨before, after, rfl, -⟩ := List.lookup_eq_some_iff.1 hlook
      obtain ⟨x, hx⟩ := Store.mem_handles_iff.1 (hlive (t.var, c) (by simp))
      rw [hx]
      simp [bind, Except.bind, pure, Except.pure]
  | none =>
      rw [Program.findVariable]
      cases p.vars.find t.var <;> simp [bind, Except.bind, pure, Except.pure]

theorem complaint?_eq_some_iff {e : Expression α} (scale : α) {cause : ProgramError} :
    e.complaint? p = some cause ↔ e.pendingObjective p scale = .error cause := by
  have hfold : ∀ (summands : List (Summand α)) (start : List (VariableId × α)),
      (∀ t ∈ start, t.1 ∈ p.vars.handles) →
      (summands.findSome? (fun t => p.vars.complaint? t.var) = some cause ↔
        summands.foldlM (pend p scale) start = .error cause) := by
    intro summands
    induction summands with
    | nil =>
        intro start _
        simp [pure, Except.pure]
    | cons t summands ih =>
        intro start hlive
        rw [List.findSome?_cons, List.foldlM_cons]
        cases hstep : pend p scale start t with
        | error cause' =>
            rw [(pend_eq_error_iff hlive).1 hstep]
            simp [bind, Except.bind]
        | ok next =>
            have hnone : p.vars.complaint? t.var = none := by
              rw [Option.eq_none_iff_forall_ne_some]
              intro cause' hcause
              rw [(pend_eq_error_iff hlive).2 hcause] at hstep
              cases hstep
            rw [hnone]
            exact ih next (live_of_pend hstep hlive)
  exact hfold e.summands [] fun t ht => absurd ht List.not_mem_nil

end Expression

namespace Operation

variable [Zero α] [Add α] [Mul α] [BEq α]

/-- An edit of a lent program is refused, so that only idle programs are left to look at. -/
theorem outcome_of_idle {β : Type} {op : Operation α} (hop : op.isEdit) {f : β → Answer}
    {r : EStateM.Result Fault (Program α) β}
    (hr : p.session = none → op.refusal? p = op.objection? p → Outcome p op (mapAnswer f r)) :
    Outcome p op
      (mapAnswer f (if p.session.isSome then .error (.refused .checkedOut) p else r)) := by
  have hrefusal := refusal?_of_isEdit p hop
  cases hs : p.session with
  | some s =>
      rw [hs] at hrefusal
      exact .refused hrefusal
  | none =>
      rw [hs] at hrefusal
      exact hr hs hrefusal

theorem outcome_createCone {op : Operation α} {kind : ConeKind} {n : Nat} (hop : op.isEdit)
    (hnew : op.newCone? = some (kind, n))
    (hobjection : op.objection? p = dimensionObjection? kind n)
    (horthant : kind = .orthant → n = 1) :
    Outcome p op ((Answer.cone <$> ProgramM.createCone kind n : ProgramM α Answer).run p) := by
  rw [ProgramM.run_map]
  have hrefusal := refusal?_of_isEdit p hop
  cases hs : p.session with
  | some s =>
      rw [hs] at hrefusal
      rw [ProgramM.run_createCone_of_session (by simp [hs])]
      exact .refused hrefusal
  | none =>
      rw [hs, if_neg (by simp), hobjection, dimensionObjection?] at hrefusal
      by_cases hn : n < kind.minDim
      · rw [if_pos hn] at hrefusal
        rw [ProgramM.run_createCone_of_lt hs hn]
        exact .refused hrefusal
      · rw [if_neg hn] at hrefusal
        obtain ⟨cone, hkind, hdim, hvars, hrun⟩ :=
          ProgramM.run_createCone hs (Nat.le_of_not_lt hn) horthant
        rw [hrun]
        exact .carriedOut hrefusal (.coneCreated hnew hs hkind hdim hvars)

theorem outcome_variableEdit {op : Operation α} {v : VariableId} {f : Variable α → Variable α}
    (hop : op.isEdit) (hedit : op.variableEdit? = some (v, f))
    (hobjection : op.objection? p = p.vars.complaint? v) :
    Outcome p op (mapAnswer (fun _ => .done)
      (if p.session.isSome then .error (.refused .checkedOut) p
        else match p.vars.find v with
          | .ok _ => .ok PUnit.unit { p with vars := p.vars.adjust v f }
          | .error cause => .error (.refused cause) p)) := by
  refine outcome_of_idle hop fun hidle hrefusal => ?_
  rw [hobjection] at hrefusal
  cases hv : p.vars.find v with
  | error cause => exact .refused (hrefusal.trans (Store.complaint?_eq_some_iff.2 hv))
  | ok x =>
      exact .carriedOut (hrefusal.trans (Store.complaint?_eq_none_iff.2 ⟨x, hv⟩))
        (.variableSet hedit hidle)

theorem outcome_deleteCone (h : p.Coherent) (id : ConeId) :
    Outcome p (.deleteCone id) ((perform (.deleteCone id)).run p) := by
  rw [perform, run_done, ProgramM.run_deleteCone h]
  refine outcome_of_idle rfl fun hidle hrefusal => ?_
  cases hcone : p.cones.find id with
  | error cause => exact .refused (hrefusal.trans (Store.complaint?_eq_some_iff.2 hcone))
  | ok cone =>
      exact .carriedOut (hrefusal.trans (Store.complaint?_eq_none_iff.2 ⟨cone, hcone⟩))
        (.coneDeleted hidle hcone)

theorem outcome_deleteConstraint (con : ConstraintId) :
    Outcome p (.deleteConstraint con) ((perform (.deleteConstraint con)).run p) := by
  rw [perform, run_done, ProgramM.run_deleteConstraint]
  refine outcome_of_idle rfl fun hidle hrefusal => ?_
  cases hcon : p.constraints.find con with
  | error cause => exact .refused (hrefusal.trans (Store.complaint?_eq_some_iff.2 hcon))
  | ok c =>
      exact .carriedOut (hrefusal.trans (Store.complaint?_eq_none_iff.2 ⟨c, hcon⟩))
        (.constraintDeleted hidle hcon)

theorem outcome_addVariable (con : ConstraintId) (v : VariableId) (a : α) :
    Outcome p (.addVariable con v a) ((perform (.addVariable con v a)).run p) := by
  rw [perform, run_done, ProgramM.run_addVariable]
  refine outcome_of_idle rfl fun hidle hrefusal => ?_
  rw [objection?] at hrefusal
  cases hv : p.vars.find v with
  | error cause =>
      rw [Store.complaint?_eq_some_iff.2 hv] at hrefusal
      exact .refused hrefusal
  | ok x =>
      rw [Store.complaint?_eq_none_iff.2 ⟨x, hv⟩, Option.none_or] at hrefusal
      cases hcon : p.constraints.find con with
      | error cause => exact .refused (hrefusal.trans (Store.complaint?_eq_some_iff.2 hcon))
      | ok c =>
          exact .carriedOut (hrefusal.trans (Store.complaint?_eq_none_iff.2 ⟨c, hcon⟩))
            (.termSet hidle (Store.mem_handles_iff.2 ⟨x, hv⟩))

theorem outcome_setConstrainedValue (con : ConstraintId) (rhs : α) :
    Outcome p (.setConstrainedValue con rhs) ((perform (.setConstrainedValue con rhs)).run p) := by
  rw [perform, run_done, ProgramM.run_setConstrainedValue]
  refine outcome_of_idle rfl fun hidle hrefusal => ?_
  cases hcon : p.constraints.find con with
  | error cause => exact .refused (hrefusal.trans (Store.complaint?_eq_some_iff.2 hcon))
  | ok c =>
      exact .carriedOut (hrefusal.trans (Store.complaint?_eq_none_iff.2 ⟨c, hcon⟩))
        (.rhsSet hidle)

theorem outcome_addToObjective (e : Expression α) (scale : α) :
    Outcome p (.addToObjective e scale) ((perform (.addToObjective e scale)).run p) := by
  rw [perform, run_done, Expression.run_addToObjective]
  refine outcome_of_idle rfl fun hidle hrefusal => ?_
  cases hpending : e.pendingObjective p scale with
  | error cause =>
      exact .refused (hrefusal.trans ((Expression.complaint?_eq_some_iff scale).2 hpending))
  | ok pending =>
      have hnone : e.complaint? p = none := by
        rw [Option.eq_none_iff_forall_ne_some]
        intro cause hcause
        rw [Expression.complaint?_eq_some_iff scale, hpending] at hcause
        cases hcause
      exact .carriedOut (hrefusal.trans hnone) (.objectiveAdded hidle hpending)

theorem outcome_checkIn (h : p.Coherent) : Outcome p .checkIn ((perform .checkIn).run p) := by
  rw [perform, run_done, ProgramM.run_checkIn h]
  cases hs : p.session with
  | none =>
      have hrefusal : refusal? p .checkIn = some .notCheckedOut := by
        simp [refusal?, hs, isEdit, needsLoan]
      exact .refused hrefusal
  | some s =>
      have hrefusal : refusal? p .checkIn = none := by simp [refusal?, hs, isEdit]
      dsimp only
      by_cases hret : s.Returnable
      · rw [if_pos hret]
        exact .carriedOut hrefusal (.returned hs hret)
      · rw [if_neg hret]
        exact .carriedOut hrefusal (.kept hs hret)

theorem outcome_editLent (f : Matrices α → Matrices α) :
    Outcome p (.editLent f) ((perform (.editLent f)).run p) := by
  rw [perform, run_done, ProgramM.run_editLent]
  cases hs : p.session with
  | none =>
      have hrefusal : refusal? p (.editLent f) = some .notCheckedOut := by
        simp [refusal?, hs, isEdit, needsLoan]
      exact .refused hrefusal
  | some s =>
      have hrefusal : refusal? p (.editLent f) = none := by simp [refusal?, hs, isEdit]
      exact .carriedOut hrefusal (.lentEdited hs)

theorem outcome_solveWith (h : p.Coherent)
    (solver : Matrices α → Option SolverStatus × Matrices α) :
    Outcome p (.solveWith solver) ((perform (.solveWith solver)).run p) := by
  rw [perform, ProgramM.run_map, ProgramM.run_solveWith h]
  refine outcome_of_idle rfl fun hidle hrefusal => ?_
  cases hsolver : solver p.exported with
  | mk status? M =>
      dsimp only
      cases status? with
      | none => exact .carriedOut hrefusal (.unsolved hidle hsolver (.inl rfl))
      | some status =>
          dsimp only
          by_cases hret : (p.loan.withMatrices M).Returnable
          · rw [if_pos hret]
            exact .carriedOut hrefusal (.solved hidle hsolver hret)
          · rw [if_neg hret]
            exact .carriedOut hrefusal (.unsolved hidle hsolver (.inr hret))

/-- Every operation on a coherent program ends in one of the ways listed. -/
theorem outcome_perform (h : p.Coherent) (op : Operation α) : Outcome p op (op.perform.run p) := by
  cases op with
  | createOrthant => exact outcome_createCone rfl rfl rfl fun _ => rfl
  | createSecondOrder n => exact outcome_createCone rfl rfl rfl fun hk => nomatch hk
  | createRotated n => exact outcome_createCone rfl rfl rfl fun hk => nomatch hk
  | createConstraint =>
      rw [perform, ProgramM.run_map, ProgramM.run_createConstraint]
      refine outcome_of_idle rfl fun hidle hrefusal => ?_
      exact .carriedOut hrefusal (.constraintCreated hidle)
  | deleteCone id => exact outcome_deleteCone h id
  | deleteConstraint con => exact outcome_deleteConstraint con
  | addVariable con v a => exact outcome_addVariable con v a
  | setConstrainedValue con rhs => exact outcome_setConstrainedValue con rhs
  | setObjectiveCoefficient v c =>
      rw [perform, run_done, ProgramM.run_setObjectiveCoefficient]
      exact outcome_variableEdit rfl rfl rfl
  | setPrimalValue v x =>
      rw [perform, run_done, ProgramM.run_setPrimalValue]
      exact outcome_variableEdit rfl rfl rfl
  | setDualValue v s =>
      rw [perform, run_done, ProgramM.run_setDualValue]
      exact outcome_variableEdit rfl rfl rfl
  | addToObjective e scale => exact outcome_addToObjective e scale
  | chooseSettings choice => exact .carriedOut rfl .settingsChosen
  | printTo target => exact .carriedOut rfl .targetChosen
  | checkOut =>
      rw [perform, run_done, ProgramM.run_checkOut h]
      exact outcome_of_idle rfl fun hidle hrefusal => .carriedOut hrefusal (.lent hidle)
  | checkIn => exact outcome_checkIn h
  | editLent f => exact outcome_editLent f
  | solveWith solver => exact outcome_solveWith h solver

end Operation

/-! ### What can be told beforehand -/

/-- The vectors that are read back have the lengths that the program needs. -/
def Matrices.Fits (M : Matrices α) (p : Program α) : Prop :=
  M.x.size = p.variableCount ∧ M.s.size = p.variableCount ∧ M.w.size = p.constraintCount

instance (M : Matrices α) (p : Program α) : Decidable (M.Fits p) := by
  unfold Matrices.Fits
  infer_instance

theorem Program.Coherent.returnable_iff (h : p.Coherent) {s : Session α}
    (hs : p.session = some s) : s.Returnable ↔ s.matrices.Fits p := by
  obtain ⟨hcolumns, hrows⟩ := h.session_order s hs
  rw [Session.Returnable, Matrices.Fits, hcolumns, hrows, h.columnOrder_eq, Program.rowOrder,
    Store.length_handles, Store.length_handles]
  rfl

namespace Operation

section

variable [Zero α] [BEq α]

/-- Whether an operation breaks off: vectors come back with lengths that do not fit the program, or
a solver breaks off itself. -/
def breaksOff (p : Program α) : Operation α → Prop
  | .checkIn => ∃ M, p.lentMatrices = .ok M ∧ ¬M.Fits p
  | .solveWith solver => ∃ q M, (ProgramM.checkOut : ProgramM α Unit).run p = .ok () q ∧
      q.lentMatrices = .ok M ∧ ((solver M).1 = none ∨ ¬(solver M).2.Fits p)
  | _ => False

theorem breaksOff_checkIn_iff (h : p.Coherent) {s : Session α} (hs : p.session = some s) :
    breaksOff p .checkIn ↔ ¬s.Returnable := by
  rw [h.returnable_iff hs, breaksOff, Program.lentMatrices, Program.activeSession, hs]
  constructor
  · rintro ⟨M, hM, hfits⟩
    cases hM
    exact hfits
  · exact fun hfits => ⟨s.matrices, rfl, hfits⟩

theorem breaksOff_solveWith_iff (h : p.Coherent) (hidle : p.session = none)
    {solver : Matrices α → Option SolverStatus × Matrices α} {status? : Option SolverStatus}
    {M : Matrices α} (hsolver : solver p.exported = (status?, M)) :
    breaksOff p (.solveWith solver) ↔
      status? = none ∨ ¬(p.loan.withMatrices M).Returnable := by
  have hfits : (p.loan.withMatrices M).Returnable ↔ M.Fits p := (h.lentAs M).returnable_iff rfl
  have hrun : (ProgramM.checkOut : ProgramM α Unit).run p = .ok () p.lent := by
    rw [ProgramM.run_checkOut h, hidle]
    rfl
  have hlent : p.lent.lentMatrices = .ok p.exported := rfl
  rw [hfits, breaksOff, hrun]
  constructor
  · rintro ⟨q, N, hq, hN, hbad⟩
    cases hq
    rw [hlent] at hN
    cases hN
    rwa [hsolver] at hbad
  · intro hbad
    refine ⟨p.lent, p.exported, rfl, hlent, ?_⟩
    rwa [hsolver]

variable {op : Operation α}

theorem breaksOff_of_newCone? {x : ConeKind × Nat} (hop : op.newCone? = some x) :
    ¬op.breaksOff p := by
  cases op <;> cases hop <;> exact id

theorem breaksOff_of_variableEdit? {x : VariableId × (Variable α → Variable α)}
    (hop : op.variableEdit? = some x) : ¬op.breaksOff p := by
  cases op <;> cases hop <;> exact id

theorem refusal?_of_breaksOff (h : p.Coherent) (hbreaks : op.breaksOff p) :
    op.refusal? p = none := by
  cases op with
  | checkIn =>
      obtain ⟨M, hM, -⟩ := hbreaks
      rw [Program.lentMatrices, Program.activeSession] at hM
      cases hs : p.session with
      | none =>
          rw [hs] at hM
          cases hM
      | some s => simp [refusal?, hs, isEdit]
  | solveWith solver =>
      obtain ⟨q, M, hout, -, -⟩ := hbreaks
      rw [ProgramM.run_checkOut h] at hout
      rw [refusal?_of_isEdit p rfl]
      split at hout
      case isTrue => cases hout
      case isFalse hidle => exact if_neg hidle
  | _ => exact hbreaks.elim

end

variable [Zero α] [Add α] [Mul α] [BEq α] {op : Operation α}

theorem Effect.cases_breaksOff (h : p.Coherent) {r : EStateM.Result Fault (Program α) Answer}
    (he : Effect p op r) :
    op.breaksOff p ∧ (∃ q, r = .error .aborted q) ∨
      ¬op.breaksOff p ∧ ∃ answer q, r = .ok answer q := by
  cases he with
  | coneCreated hop hidle hkind hdim hvars => exact .inr ⟨breaksOff_of_newCone? hop, _, _, rfl⟩
  | variableSet hop hidle => exact .inr ⟨breaksOff_of_variableEdit? hop, _, _, rfl⟩
  | returned hs hret =>
      rw [breaksOff_checkIn_iff h hs]
      exact .inr ⟨not_not_intro hret, _, _, rfl⟩
  | kept hs hret =>
      rw [breaksOff_checkIn_iff h hs]
      exact .inl ⟨hret, _, rfl⟩
  | solved hidle hsolver hret =>
      rw [breaksOff_solveWith_iff h hidle hsolver]
      exact .inr ⟨by simp [hret], _, _, rfl⟩
  | unsolved hidle hsolver hkept =>
      rw [breaksOff_solveWith_iff h hidle hsolver]
      exact .inl ⟨hkept, _, rfl⟩
  | constraintCreated | coneDeleted | constraintDeleted | termSet | rhsSet | objectiveAdded
  | settingsChosen | targetChosen | lent | lentEdited => exact .inr ⟨id, _, _, rfl⟩

/-- An operation is refused, breaks off or succeeds, and which of the three is known beforehand. -/
theorem run_cases (h : p.Coherent) (op : Operation α) :
    (∃ cause, op.refusal? p = some cause ∧ ¬op.breaksOff p ∧
        op.perform.run p = .error (.refused cause) p) ∨
      (op.refusal? p = none ∧ op.breaksOff p ∧ ∃ q, op.perform.run p = .error .aborted q) ∨
        (op.refusal? p = none ∧ ¬op.breaksOff p ∧ ∃ answer q, op.perform.run p = .ok answer q) := by
  have houtcome := outcome_perform h op
  generalize op.perform.run p = r at houtcome
  cases houtcome with
  | @refused cause hrefusal =>
      refine .inl ⟨cause, hrefusal, fun hbreaks => ?_, rfl⟩
      rw [refusal?_of_breaksOff h hbreaks] at hrefusal
      cases hrefusal
  | carriedOut hrefusal he =>
      rcases he.cases_breaksOff h with ⟨hbreaks, hr⟩ | ⟨hnot, hr⟩
      · exact .inr (.inl ⟨hrefusal, hbreaks, hr⟩)
      · exact .inr (.inr ⟨hrefusal, hnot, hr⟩)

theorem run_eq_refused_iff (h : p.Coherent) {cause : ProgramError} {q : Program α} :
    op.perform.run p = .error (.refused cause) q ↔ op.refusal? p = some cause ∧ q = p := by
  rcases run_cases h op with ⟨cause', hrefusal, -, hrun⟩ | ⟨hrefusal, -, q', hrun⟩ |
    ⟨hrefusal, -, answer, q', hrun⟩ <;> simp [hrefusal, hrun, eq_comm]

theorem run_eq_aborted_iff (h : p.Coherent) :
    (∃ q, op.perform.run p = .error .aborted q) ↔ op.breaksOff p := by
  rcases run_cases h op with ⟨cause', -, hbreaks, hrun⟩ | ⟨-, hbreaks, q', hrun⟩ |
    ⟨-, hbreaks, answer, q', hrun⟩ <;> simp [hbreaks, hrun]

theorem run_eq_ok_iff (h : p.Coherent) :
    (∃ answer q, op.perform.run p = .ok answer q) ↔ op.refusal? p = none ∧ ¬op.breaksOff p := by
  rcases run_cases h op with ⟨cause', hrefusal, hbreaks, hrun⟩ | ⟨hrefusal, hbreaks, q', hrun⟩ |
    ⟨hrefusal, hbreaks, answer, q', hrun⟩ <;> simp [hrefusal, hbreaks, hrun]

end Operation

end Socp
