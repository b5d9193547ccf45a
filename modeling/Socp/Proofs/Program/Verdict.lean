import Socp.Proofs.Program.Checkout
import Socp.Proofs.Program.History

/-!
How every call turns out. A lent program refuses all edits before it looks at their arguments; one
that is not lent refuses an edit for the first bad argument and for nothing else. Whether a handle
is bad, and in which way, is settled by the histories of the programs.
-/

namespace Socp

variable {α : Type}

/-! ### Objections -/

namespace Operation

variable {p : Program α} {op : Operation α} {cause : ProgramError}

theorem dimensionObjection?_eq_some_iff {kind : ConeKind} {n : Nat} :
    dimensionObjection? kind n = some cause ↔
      n < kind.minDim ∧ cause = .badConeDimension kind n kind.minDim := by
  rw [dimensionObjection?]
  split <;> simp_all [eq_comm]

theorem objection?_cases (hobjection : op.objection? p = some cause) :
    (∃ kind n, n < ConeKind.minDim kind ∧ cause = .badConeDimension kind n kind.minDim) ∨
      ∃ k, ∃ h : Handle k, p.complaint? h = some cause := by
  cases op with
  | createOrthant => exact .inl ⟨_, _, dimensionObjection?_eq_some_iff.1 hobjection⟩
  | createSecondOrder n => exact .inl ⟨_, _, dimensionObjection?_eq_some_iff.1 hobjection⟩
  | createRotated n => exact .inl ⟨_, _, dimensionObjection?_eq_some_iff.1 hobjection⟩
  | deleteCone id => exact .inr ⟨.cone, id, hobjection⟩
  | deleteConstraint con => exact .inr ⟨.constraint, con, hobjection⟩
  | setConstrainedValue con rhs => exact .inr ⟨.constraint, con, hobjection⟩
  | setObjectiveCoefficient v c => exact .inr ⟨.var, v, hobjection⟩
  | setPrimalValue v x => exact .inr ⟨.var, v, hobjection⟩
  | setDualValue v s => exact .inr ⟨.var, v, hobjection⟩
  | addVariable con v a =>
      rw [objection?, Option.or_eq_some_iff] at hobjection
      rcases hobjection with hv | ⟨-, hcon⟩
      · exact .inr ⟨.var, v, hv⟩
      · exact .inr ⟨.constraint, con, hcon⟩
  | addToObjective e scale =>
      obtain ⟨t, -, ht⟩ := List.exists_of_findSome?_eq_some hobjection
      exact .inr ⟨.var, t.var, ht⟩
  | _ => cases hobjection

theorem refusal?_of_idle (hidle : p.isCheckedOut = false) (hop : op.isEdit) :
    op.refusal? p = op.objection? p := by
  rw [refusal?_of_isEdit p hop]
  exact if_neg (Bool.eq_false_iff.1 hidle)

theorem objection?_ne_checkedOut (hp : p.Coherent) : op.objection? p ≠ some .checkedOut := by
  intro hobjection
  rcases objection?_cases hobjection with ⟨kind, n, -, heq⟩ | ⟨k, h, hcomplaint⟩
  · cases heq
  · rcases hp.eq_of_complaint? hcomplaint with heq | heq <;> cases heq

end Operation

/-! ### Indices -/

namespace Program

variable {p : Program α} {s : Session α} {cause : ProgramError}

/-- An index that exists for what is found fails for what is not found, and in the same way. -/
theorem index_eq_error_iff {β : Type} {found : Except ProgramError β}
    {index : Except ProgramError Nat} (hlost : ∀ e, found = .error e → index = .error e)
    (hfound : ∀ x, found = .ok x → ∃ i, index = .ok i) :
    index = .error cause ↔ found = .error cause := by
  cases found with
  | error e => simp [hlost e rfl]
  | ok x =>
      obtain ⟨i, hi⟩ := hfound x rfl
      simp [hi]

theorem index_eq_notCheckedOut_iff {index : Except ProgramError Nat}
    (hidle : p.session = none → index = .error .notCheckedOut)
    (hlent : ∀ s, p.session = some s → index ≠ .error .notCheckedOut) :
    index = .error .notCheckedOut ↔ p.isCheckedOut = false := by
  cases hs : p.session with
  | none => simp [isCheckedOut, hs, hidle hs]
  | some s => simp [isCheckedOut, hs, hlent s hs]

namespace Coherent

theorem columnOf_eq_error_iff (h : p.Coherent) (hs : p.session = some s) {v : VariableId} :
    p.columnOf v = .error cause ↔ p.complaint? v = some cause := by
  rw [complaint?, Store.complaint?_eq_some_iff]
  refine index_eq_error_iff ?_ ?_
  · intro e he
    rw [columnOf, activeSession, hs, he]
    rfl
  · intro x hx
    obtain ⟨j, hj⟩ := List.mem_iff_getElem?.1 (h.mem_columnOrder_iff.2 ⟨x, hx⟩)
    exact ⟨j, (h.columnOf_eq_ok_iff hs).2 hj⟩

theorem rowOf_eq_error_iff (h : p.Coherent) (hs : p.session = some s) {con : ConstraintId} :
    p.rowOf con = .error cause ↔ p.complaint? con = some cause := by
  rw [complaint?, Store.complaint?_eq_some_iff]
  refine index_eq_error_iff ?_ ?_
  · intro e he
    rw [rowOf, activeSession, hs, he]
    rfl
  · intro c hc
    obtain ⟨i, hi⟩ := List.mem_iff_getElem?.1 (Store.mem_handles_iff.2 ⟨c, hc⟩)
    exact ⟨i, (h.rowOf_eq_ok_iff hs).2 hi⟩

theorem complaint?_ne_notCheckedOut (h : p.Coherent) {k : Entity} (g : Handle k) :
    p.complaint? g ≠ some .notCheckedOut := by
  intro hc
  rcases h.eq_of_complaint? hc with heq | heq <;> cases heq

theorem columnOf_eq_notCheckedOut_iff (h : p.Coherent) {v : VariableId} :
    p.columnOf v = .error .notCheckedOut ↔ p.isCheckedOut = false := by
  refine index_eq_notCheckedOut_iff ?_ ?_
  · intro hidle
    rw [columnOf, activeSession, hidle]
    rfl
  · intro s hs
    rw [ne_eq, h.columnOf_eq_error_iff hs]
    exact h.complaint?_ne_notCheckedOut v

theorem rowOf_eq_notCheckedOut_iff (h : p.Coherent) {con : ConstraintId} :
    p.rowOf con = .error .notCheckedOut ↔ p.isCheckedOut = false := by
  refine index_eq_notCheckedOut_iff ?_ ?_
  · intro hidle
    rw [rowOf, activeSession, hidle]
    rfl
  · intro s hs
    rw [ne_eq, h.rowOf_eq_error_iff hs]
    exact h.complaint?_ne_notCheckedOut con

end Coherent

end Program

theorem Program.lentMatrices_eq_notCheckedOut_iff {p : Program α} :
    p.lentMatrices = .error .notCheckedOut ↔ p.isCheckedOut = false := by
  rw [lentMatrices, activeSession, isCheckedOut]
  cases p.session <;> simp [Functor.map, Except.map]

namespace Operation

variable [Zero α] [Add α] [Mul α] [BEq α]

/-- A handle that a program with another number has issued. -/
def IssuedElsewhere (id : Nat) {k : Entity} (h : Handle k) : Prop :=
  ∃ (β : Type) (_ : Zero β) (_ : Add β) (_ : Mul β) (_ : BEq β) (id' : Nat)
    (settings : Settings β) (ops : List (Operation β)),
    id' ≠ id ∧ Issued (.empty id' settings) ops h

section

variable {id : Nat} {settings : Settings α} {ops : List (Operation α)} {k : Entity} {h : Handle k}

theorem program_of_issued (hh : Issued (.empty id settings) ops h) : h.program = id :=
  (chronicle_of_empty id settings ops k).program_of_issued h hh

theorem program_of_issuedElsewhere (hh : IssuedElsewhere id h) : h.program ≠ id := by
  obtain ⟨β, _, _, _, _, id', settings', ops', hne, hissued⟩ := hh
  rw [program_of_issued hissued]
  exact hne

/-- A handle is foreign, stale or good, and its history tells which. -/
theorem complaint?_of_history (id : Nat) (settings : Settings α) (ops : List (Operation α))
    {k : Entity} (h : Handle k) (hh : Issued (.empty id settings) ops h ∨ IssuedElsewhere id h) :
    let p := performAll (.empty id settings) ops
    p.complaint? h = some (.foreignHandle k) ∧ IssuedElsewhere id h ∧
        ¬Issued (.empty id settings) ops h ∧ ¬Deleted (.empty id settings) ops h ∨
      p.complaint? h = some (.staleHandle k) ∧ ¬IssuedElsewhere id h ∧
        Issued (.empty id settings) ops h ∧ Deleted (.empty id settings) ops h ∨
      p.complaint? h = none ∧ ¬IssuedElsewhere id h ∧
        Issued (.empty id settings) ops h ∧ ¬Deleted (.empty id settings) ops h := by
  intro p
  have hp : p.Coherent := coherent_of_empty id settings ops
  have hc := chronicle_of_empty id settings ops k
  have hnumber : p.number = id := hc.number_eq
  rcases hh with hown | helse
  · have hprogram := program_of_issued hown
    have hnot : ¬IssuedElsewhere id h := fun helse => program_of_issuedElsewhere helse hprogram
    by_cases hdeleted : Deleted (.empty id settings) ops h
    · have hdead : h ∉ p.handles k := fun hlive => ((hc.live_iff h).1 hlive).2 hdeleted
      have hstale := hp.complaint?_of_not_mem (hprogram.trans hnumber.symm) hdead
      exact .inr (.inl ⟨hstale, hnot, hown, hdeleted⟩)
    · have hgood := Program.complaint?_eq_none_iff.2 ((hc.live_iff h).2 ⟨hown, hdeleted⟩)
      exact .inr (.inr ⟨hgood, hnot, hown, hdeleted⟩)
  · have hne := program_of_issuedElsewhere helse
    have hforeign := hp.complaint?_of_ne (hnumber.symm ▸ hne)
    have hnot : ¬Issued (.empty id settings) ops h := fun hown => hne (program_of_issued hown)
    exact .inl ⟨hforeign, helse, hnot, fun hdeleted => hnot (hc.issued_of_deleted h hdeleted)⟩

end

/-- How the calls on a program turn out after a history. -/
structure Verdicts (id : Nat) (settings : Settings α) (ops : List (Operation α))
    (p : Program α) : Prop where
  /-- Before an edit looks at its arguments it looks for the loan. -/
  checkedOut_iff : ∀ op : Operation α, op.isEdit →
    ((∃ q, op.perform.run p = .error (.refused .checkedOut) q) ↔ p.isCheckedOut)
  /-- Without a loan an edit is refused for the first bad argument and for nothing else. -/
  refused_iff : p.isCheckedOut = false → ∀ op : Operation α, op.isEdit → ∀ cause,
    ((∃ q, op.perform.run p = .error (.refused cause) q) ↔ op.objection? p = some cause)
  /-- With good arguments it succeeds, if no solver spoils it. -/
  ok_iff : p.isCheckedOut = false → ∀ op : Operation α, op.isEdit →
    ((∃ answer q, op.perform.run p = .ok answer q) ↔
      op.objection? p = none ∧ ¬op.breaksOff p)
  aborted_iff : ∀ op : Operation α,
    (∃ q, op.perform.run p = .error .aborted q) ↔ op.breaksOff p
  foreign_iff : ∀ {k : Entity} (h : Handle k),
    Issued (.empty id settings) ops h ∨ IssuedElsewhere id h →
      (p.complaint? h = some (.foreignHandle k) ↔ IssuedElsewhere id h)
  stale_iff : ∀ {k : Entity} (h : Handle k),
    Issued (.empty id settings) ops h ∨ IssuedElsewhere id h →
      (p.complaint? h = some (.staleHandle k) ↔ Deleted (.empty id settings) ops h)
  good_iff : ∀ {k : Entity} (h : Handle k),
    Issued (.empty id settings) ops h ∨ IssuedElsewhere id h →
      (p.complaint? h = none ↔
        Issued (.empty id settings) ops h ∧ ¬Deleted (.empty id settings) ops h)
  /-- What works on a loan needs one. -/
  notCheckedOut_iff : ∀ op : Operation α, op.needsLoan →
    ((∃ q, op.perform.run p = .error (.refused .notCheckedOut) q) ↔ p.isCheckedOut = false)
  lentMatrices_iff : p.lentMatrices = .error .notCheckedOut ↔ p.isCheckedOut = false
  columnOf_iff : ∀ v, p.columnOf v = .error .notCheckedOut ↔ p.isCheckedOut = false
  rowOf_iff : ∀ con, p.rowOf con = .error .notCheckedOut ↔ p.isCheckedOut = false
  /-- With a loan an index is refused for the handle, and for nothing else. -/
  columnOf_refused_iff : p.isCheckedOut → ∀ v cause,
    (p.columnOf v = .error cause ↔ p.complaint? v = some cause)
  rowOf_refused_iff : p.isCheckedOut → ∀ con cause,
    (p.rowOf con = .error cause ↔ p.complaint? con = some cause)

/-- How a call turns out is known beforehand, after every history. -/
theorem performAll_verdicts (id : Nat) (settings : Settings α) (ops : List (Operation α)) :
    Verdicts id settings ops (performAll (.empty id settings) ops) := by
  have hp := coherent_of_empty id settings ops
  have hhistory := fun {k : Entity} (h : Handle k) => complaint?_of_history id settings ops h
  generalize performAll (.empty id settings) ops = p at hp hhistory ⊢
  have hrefused : ∀ op : Operation α, ∀ cause,
      (∃ q, op.perform.run p = .error (.refused cause) q) ↔ op.refusal? p = some cause := by
    intro op cause
    simp [run_eq_refused_iff hp]
  constructor
  case checkedOut_iff =>
    intro op hop
    rw [hrefused, refusal?_of_isEdit p hop, Program.isCheckedOut]
    cases p.session <;> simp [objection?_ne_checkedOut hp]
  case refused_iff =>
    intro hidle op hop cause
    rw [hrefused, refusal?_of_idle hidle hop]
  case ok_iff =>
    intro hidle op hop
    rw [run_eq_ok_iff hp, refusal?_of_idle hidle hop]
  case aborted_iff => exact fun op => run_eq_aborted_iff hp
  case foreign_iff =>
    intro k h hh
    rcases hhistory h hh with ⟨hc, hrest⟩ | ⟨hc, hrest⟩ | ⟨hc, hrest⟩ <;> simp [hc, hrest]
  case stale_iff =>
    intro k h hh
    rcases hhistory h hh with ⟨hc, hrest⟩ | ⟨hc, hrest⟩ | ⟨hc, hrest⟩ <;> simp [hc, hrest]
  case good_iff =>
    intro k h hh
    rcases hhistory h hh with ⟨hc, hrest⟩ | ⟨hc, hrest⟩ | ⟨hc, hrest⟩ <;> simp [hc, hrest]
  case notCheckedOut_iff =>
    intro op hop
    rw [hrefused]
    cases op with
    | checkIn | editLent f =>
        rw [Program.isCheckedOut, refusal?]
        cases p.session <;> simp [isEdit, needsLoan]
    | _ => cases hop
  case lentMatrices_iff => exact Program.lentMatrices_eq_notCheckedOut_iff
  case columnOf_iff => exact fun v => hp.columnOf_eq_notCheckedOut_iff
  case rowOf_iff => exact fun con => hp.rowOf_eq_notCheckedOut_iff
  case columnOf_refused_iff =>
    intro hlent v cause
    obtain ⟨s, hs⟩ := Option.isSome_iff_exists.1 hlent
    exact hp.columnOf_eq_error_iff hs
  case rowOf_refused_iff =>
    intro hlent con cause
    obtain ⟨s, hs⟩ := Option.isSome_iff_exists.1 hlent
    exact hp.rowOf_eq_error_iff hs

/-- A solver that brings back one value too many makes an edit fail that nothing speaks against. -/
theorem solveWith_not_always_ok :
    ¬∀ (id : Nat) (settings : Settings Int) (ops : List (Operation Int)) (op : Operation Int),
      let p := performAll (.empty id settings) ops
      op.isEdit → p.isCheckedOut = false → op.objection? p = none →
        ∃ answer q, op.perform.run p = .ok answer q := by
  intro halways
  let solver : Matrices Int → Option SolverStatus × Matrices Int :=
    fun M => (some .solved, { M with x := M.x.push 0 })
  obtain ⟨answer, q, hrun⟩ := halways 0 ⟨true, 0, true⟩ [.createOrthant] (.solveWith solver)
    (by decide +kernel) (by decide +kernel) (by decide +kernel)
  have haborted : (match (perform (.solveWith solver)).run
      (performAll (.empty 0 ⟨true, 0, true⟩) [.createOrthant]) with
      | .ok _ _ => false
      | .error fault _ => fault == .aborted) = true := by
    decide +kernel
  rw [hrun] at haborted
  cases haborted

end Operation

end Socp
