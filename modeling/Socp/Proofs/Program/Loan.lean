import Socp.Proofs.Program.Effect
import Socp.Proofs.Program.Export

/-!
What lending, editing the lent matrices and taking them back come to, again in one equation for
each. In a coherent program the only failures are a loan that is out or not out when it should not
be, and vectors that come back with other lengths.
-/

namespace Socp

/-! ### Programs that a loan leaves behind -/

namespace Session

variable {α : Type}

def variableUpdates (s : Session α) : List (VariableId × (Variable α → Variable α)) :=
  (s.columns.zip (s.matrices.x.toList.zip s.matrices.s.toList)).map variableUpdate
where
  variableUpdate (t : VariableId × α × α) : VariableId × (Variable α → Variable α) :=
    (t.1, ({ · with primal := t.2.1, dual := t.2.2 }))

def constraintUpdates (s : Session α) : List (ConstraintId × (Constraint α → Constraint α)) :=
  (s.rows.zip s.matrices.w.toList).map constraintUpdate
where
  constraintUpdate (t : ConstraintId × α) : ConstraintId × (Constraint α → Constraint α) :=
    (t.1, ({ · with dual := t.2 }))

/-- The same loan after the borrower has changed the matrices. -/
def withMatrices (s : Session α) (M : Matrices α) : Session α := { s with matrices := M }

end Session

namespace Program

variable {α : Type}

def checkoutText [Zero α] [BEq α] (p : Program α) : List Text :=
  Summary.checkout {
    vars := p.exported.A.cols
    constraints := p.exported.A.rows
    matrixEntries := (p.constraints.values.map fun con => con.terms.size).sum
    objectiveEntries := Dense.cardinality p.exported.c.toList
    cones := ConeKind.all.map fun kind => (kind, p.kindCount kind) }

def lent [Zero α] [BEq α] (p : Program α) : Program α :=
  { p with
    session := some p.loan
    output := if p.settings.verbose then p.output.write p.checkoutText else p.output }

/-- The program with other matrices lent than those it made up. -/
def lentAs [Zero α] [BEq α] (p : Program α) (M : Matrices α) : Program α :=
  { p.lent with session := some (p.loan.withMatrices M) }

/-- Lending `p` succeeds: it leaves the program `q`, with the matrices `M` lent. -/
def Lends [Zero α] [BEq α] (p q : Program α) (M : Matrices α) : Prop :=
  (ProgramM.checkOut : ProgramM α Unit).run p = .ok () q ∧ q.lentMatrices = .ok M

theorem exists_session_of_lentMatrices {p : Program α} {M : Matrices α}
    (hM : p.lentMatrices = .ok M) : ∃ s, p.session = some s ∧ s.matrices = M := by
  rw [lentMatrices, activeSession] at hM
  cases hs : p.session with
  | none =>
      rw [hs] at hM
      cases hM
  | some s =>
      rw [hs] at hM
      exact ⟨s, rfl, Except.ok.inj hM⟩

def returned (p : Program α) (s : Session α) : Program α :=
  { p with
    vars := p.vars.adjustAll s.variableUpdates
    constraints := p.constraints.adjustAll s.constraintUpdates
    session := none
    output :=
      if p.settings.verbose then
        p.output.write (Summary.checkin s.columns.length s.rows.length)
      else p.output }

namespace Coherent

variable {p : Program α}

theorem lent [Zero α] [BEq α] (h : p.Coherent) : p.lent.Coherent := by
  refine (h.session (some p.loan) ?_).output _
  intro s hs
  cases hs
  exact ⟨rfl, rfl⟩

theorem returned (h : p.Coherent) (s : Session α) : (p.returned s).Coherent := by
  have hvars : { p with vars := p.vars.adjustAll s.variableUpdates }.Coherent := by
    apply h.adjustVars
    intro t ht x
    obtain ⟨e, -, rfl⟩ := List.mem_map.1 ht
    rfl
  have hcons := hvars.adjustConstraints (l := s.constraintUpdates) ?_
  · exact (hcons.session none fun s hs => nomatch hs).output _
  · intro t ht c
    obtain ⟨e, -, rfl⟩ := List.mem_map.1 ht
    rfl

theorem withMatrices (h : p.Coherent) {s : Session α} (hs : p.session = some s) (M : Matrices α) :
    { p with session := some (s.withMatrices M) }.Coherent := by
  apply h.session
  intro s' hs'
  cases hs'
  exact h.session_order s hs

theorem lentAs [Zero α] [BEq α] (h : p.Coherent) (M : Matrices α) : (p.lentAs M).Coherent :=
  h.lent.withMatrices rfl M

end Coherent

end Program

namespace ProgramM

variable {α : Type} {p : Program α}

/-! ### Runs -/

theorem run_checkOut [Zero α] [BEq α] (h : p.Coherent) :
    (checkOut : ProgramM α Unit).run p =
      if p.session.isSome then .error (.refused .checkedOut) p else .ok ⟨⟩ p.lent := by
  have hblock : Program.checkoutBlock { p with session := some p.loan } = .ok p.checkoutText := by
    rw [Program.checkoutBlock]
    simp only [Program.loan, h.nnz?_exported]
    rfl
  rw [checkOut, run_requireIdle_then]
  congr 1
  simp only [run_bind, run_get, run_lift, h.newSession_eq, run_modify, run_report, hblock]
  rw [Program.lent]
  split <;> rfl

theorem run_editLent {β : Type} (f : Matrices α → β × Matrices α) (p : Program α) :
    (editLent f).run p =
      match p.session with
      | none => .error (.refused .notCheckedOut) p
      | some s => .ok (f s.matrices).1
          { p with session := some (s.withMatrices (f s.matrices).2) } := by
  rw [editLent, run_bind, run_ask, Program.activeSession]
  cases p.session <;> rfl

theorem run_storeVariables {s : Session α} (hs : ∀ v ∈ s.columns, v ∈ p.vars.handles) :
    ((s.columns.zip (s.matrices.x.toList.zip s.matrices.s.toList)).forM fun (v, x, d) =>
        updateVariable v ({ · with primal := x, dual := d })).run p =
      .ok ⟨⟩ { p with vars := p.vars.adjustAll s.variableUpdates } := by
  refine run_forM_updateVariable _ Session.variableUpdates.variableUpdate ?_
  intro t ht
  exact hs t.1 (List.of_mem_zip ht).1

theorem run_storeMultipliers {s : Session α} (hs : ∀ con ∈ s.rows, con ∈ p.constraints.handles) :
    ((s.rows.zip s.matrices.w.toList).forM fun (con, w) =>
        updateConstraint con ({ · with dual := w })).run p =
      .ok ⟨⟩ { p with constraints := p.constraints.adjustAll s.constraintUpdates } := by
  refine run_forM_updateConstraint _ Session.constraintUpdates.constraintUpdate ?_
  intro t ht
  exact hs t.1 (List.of_mem_zip ht).1

theorem run_checkIn (h : p.Coherent) :
    (checkIn : ProgramM α Unit).run p =
      match p.session with
      | none => .error (.refused .notCheckedOut) p
      | some s => if s.Returnable then .ok ⟨⟩ (p.returned s) else .error .aborted p := by
  rw [checkIn, run_bind, run_ask, Program.activeSession]
  cases hs : p.session with
  | none => rfl
  | some s =>
      obtain ⟨hcolumns, hrows⟩ := h.session_order s hs
      have hvars : ∀ v ∈ s.columns, v ∈ p.vars.handles := by
        rw [hcolumns, h.columnOrder_eq]
        exact fun v hv => hv
      have hcons : ∀ con ∈ s.rows, con ∈ p.constraints.handles := by
        rw [hrows]
        exact fun con hcon => hcon
      dsimp only
      by_cases hret : s.Returnable
      · rw [if_neg (not_not_intro hret), if_pos hret]
        simp only [run_bind, run_modify]
        -- the loan is over before the values are stored
        rw [run_storeVariables (p := { p with session := none }) hvars]
        dsimp only
        rw [run_storeMultipliers
          (p := { p with session := none, vars := p.vars.adjustAll s.variableUpdates }) hcons]
        dsimp only
        rw [run_report, Program.returned]
        split <;> rfl
      · rw [if_pos hret, if_neg hret]
        rfl

theorem run_solveWith [Zero α] [BEq α] {τ : Type} (h : p.Coherent)
    (solver : Matrices α → Option τ × Matrices α) :
    (solveWith solver).run p =
      if p.session.isSome then .error (.refused .checkedOut) p
      else
        let s := p.loan.withMatrices (solver p.exported).2
        let q := { p.lent with session := some s }
        match (solver p.exported).1 with
        | none => .error .aborted q
        | some status => if s.Returnable then .ok status (q.returned s) else .error .aborted q := by
  rw [solveWith, solveThrough, run_bind, run_checkOut h]
  by_cases hs : p.session.isSome
  · rw [if_pos hs, if_pos hs]
  · have hq := h.lent.withMatrices (s := p.loan) rfl (solver p.exported).2
    rw [if_neg hs, if_neg hs]
    dsimp only
    rw [run_bind, run_editLent]
    show (match (solver p.exported).1 with
      | none => abort
      | some status => checkIn >>= fun _ => pure status : ProgramM α τ).run
        { p.lent with session := some (p.loan.withMatrices (solver p.exported).2) } = _
    cases (solver p.exported).1 with
    | none => rfl
    | some status =>
        rw [run_bind, run_checkIn hq]
        dsimp only
        by_cases hret : (p.loan.withMatrices (solver p.exported).2).Returnable
        · rw [if_pos hret, if_pos hret]
          rfl
        · rw [if_neg hret, if_neg hret]

end ProgramM

namespace Program.Coherent

variable {α : Type} [Zero α] [BEq α] {p : Program α}

theorem lends (h : p.Coherent) (hidle : p.session = none) : p.Lends p.lent p.exported := by
  refine ⟨?_, rfl⟩
  rw [ProgramM.run_checkOut h, hidle]
  rfl

theorem exists_lends_iff (h : p.Coherent) {M : Matrices α} :
    (∃ q, p.Lends q M) ↔ p.session = none ∧ p.exported = M := by
  constructor
  · rintro ⟨q, hrun, hM⟩
    rw [ProgramM.run_checkOut h] at hrun
    cases hs : p.session with
    | some s =>
        rw [hs] at hrun
        cases hrun
    | none =>
        rw [hs] at hrun
        cases hrun
        cases hM
        exact ⟨rfl, rfl⟩
  · rintro ⟨hidle, rfl⟩
    exact ⟨_, h.lends hidle⟩

end Program.Coherent

end Socp
