import Socp.Proofs.Program.Agreement
import Socp.Proofs.Program.Contents

/-!
The coefficients of a constraint as its history tells them. What counts is the last event that has
set a coefficient, whatever else was done in between, and whether zeros were dropped at that time.
A constraint or a variable is issued before anything can be set through its handle, so nothing is
left over from another one when it comes, and nothing is left of it when it goes.
-/

namespace Socp

variable {α : Type}

/-! ### Settings of coefficients -/

def Operation.setsTerm : Operation α → Bool
  | .addVariable .. => true
  | _ => false

namespace Event

/-- The event succeeds in setting a coefficient to `a`. -/
def Sets (e : Event α) (con : ConstraintId) (v : VariableId) (a : α) : Prop :=
  e.operation = .addVariable con v a ∧ ∃ answer q, e.result = .ok answer q

/-- A coefficient that is set at the time of the event is stored. -/
def Keeps [Zero α] [BEq α] (e : Event α) (a : α) : Prop :=
  e.before.settings.dropZeros = false ∨ (a == 0) = false

theorem not_sets_of_setsTerm {e : Event α} (h : e.operation.setsTerm = false) (con : ConstraintId)
    (v : VariableId) (a : α) : ¬e.Sets con v a := by
  rintro ⟨hop, -⟩
  rw [hop] at h
  cases h

theorem not_sets_of_error {e : Event α} {fault : Fault} {q : Program α}
    (h : e.result = .error fault q) (con : ConstraintId) (v : VariableId) (a : α) :
    ¬e.Sets con v a := by
  rintro ⟨-, answer, q', hok⟩
  rw [h] at hok
  cases hok

theorem deleted_of_sets {e : Event α} {con : ConstraintId} {v : VariableId} {a : α}
    (h : e.Sets con v a) (k : Entity) : e.deleted k = [] := by
  obtain ⟨before, op, result⟩ := e
  cases h.1
  cases k <;> rfl

variable [Zero α] [BEq α]

/-- The last event to set a coefficient has set it to `a`, and that was stored. -/
def Prescribe (events : List (Event α)) (con : ConstraintId) (v : VariableId) (a : α) : Prop :=
  ∃ earlier e later, events = earlier ++ e :: later ∧ e.Sets con v a ∧ e.Keeps a ∧
    ∀ e' ∈ later, ∀ b, ¬e'.Sets con v b

theorem prescribe_concat {events : List (Event α)} {e : Event α} {con : ConstraintId}
    {v : VariableId} {a : α} :
    Prescribe (events ++ [e]) con v a ↔
      e.Sets con v a ∧ e.Keeps a ∨ (∀ b, ¬e.Sets con v b) ∧ Prescribe events con v a := by
  constructor
  · rintro ⟨earlier, e', later, hsplit, hsets, hkeeps, hlater⟩
    rcases List.eq_nil_or_concat' later with rfl | ⟨later, e'', rfl⟩
    · obtain ⟨-, heq⟩ := List.append_inj' hsplit rfl
      cases heq
      exact .inl ⟨hsets, hkeeps⟩
    · rw [← List.cons_append, ← List.append_assoc] at hsplit
      obtain ⟨hevents, heq⟩ := List.append_inj' hsplit rfl
      cases heq
      refine .inr ⟨hlater e (by simp), earlier, e', later, hevents, hsets, hkeeps, ?_⟩
      exact fun e'' he'' => hlater e'' (List.mem_append_left _ he'')
  · rintro (⟨hsets, hkeeps⟩ | ⟨hnot, earlier, e', later, rfl, hsets, hkeeps, hlater⟩)
    · exact ⟨events, e, [], rfl, hsets, hkeeps, by simp⟩
    · refine ⟨earlier, e', later ++ [e], by simp, hsets, hkeeps, ?_⟩
      intro e'' he''
      rcases List.mem_append.1 he'' with he'' | he''
      · exact hlater e'' he''
      · rw [List.mem_singleton.1 he'']
        exact hnot

theorem Prescribe.exists_sets {events : List (Event α)} {con : ConstraintId} {v : VariableId}
    {a : α} (h : Prescribe events con v a) : ∃ e ∈ events, e.Sets con v a ∧ e.Keeps a := by
  obtain ⟨earlier, e, later, rfl, hsets, hkeeps, -⟩ := h
  exact ⟨e, by simp, hsets, hkeeps⟩

/-! ### What an event does to the coefficients -/

/-- How the coefficients after an event come from those before. -/
structure TermLedger (e : Event α) : Prop where
  live_of_sets : ∀ con v a, e.Sets con v a →
    con ∈ e.before.handles .constraint ∧ v ∈ e.before.handles .var
  /-- A constraint is new and has no terms, or it has those it had before, up to a coefficient that
  is set and to variables that are deleted. -/
  coefficient_iff : ∀ con c, e.after.findConstraint con = .ok c →
    (con ∈ e.issued .constraint ∧ ∀ v, c.coefficient v = none) ∨
      ∃ old, e.before.findConstraint con = .ok old ∧ ∀ v a, c.coefficient v = some a ↔
        e.Sets con v a ∧ e.Keeps a ∨
          (∀ b, ¬e.Sets con v b) ∧ v ∉ e.deleted .var ∧ old.coefficient v = some a

namespace TermLedger

variable {e : Event α}

theorem of_not_sets (hsets : ∀ con v a, ¬e.Sets con v a)
    (hafter : ∀ con c, e.after.findConstraint con = .ok c →
      (con ∈ e.issued .constraint ∧ ∀ v, c.coefficient v = none) ∨
        ∃ old, e.before.findConstraint con = .ok old ∧ ∀ v a, c.coefficient v = some a ↔
          v ∉ e.deleted .var ∧ old.coefficient v = some a) : e.TermLedger where
  live_of_sets con v a h := absurd h (hsets con v a)
  coefficient_iff con c hc := by
    simp only [hsets, false_and, false_or, not_false_eq_true, implies_true, true_and]
    exact hafter con c hc

theorem kept (hsets : ∀ con v a, ¬e.Sets con v a) (hdeleted : e.deleted .var = [])
    (hafter : ∀ con c, e.after.findConstraint con = .ok c →
      ∃ old, e.before.findConstraint con = .ok old ∧ c.terms = old.terms) : e.TermLedger := by
  refine .of_not_sets hsets fun con c hc => ?_
  obtain ⟨old, hold, hterms⟩ := hafter con c hc
  refine .inr ⟨old, hold, fun v a => ?_⟩
  simp [Constraint.coefficient, hterms, hdeleted]

theorem adjusted (m : List (ConstraintId × (Constraint α → Constraint α)))
    (hm : ∀ t ∈ m, ∀ c, (t.2 c).terms = c.terms) (hsets : ∀ con v a, ¬e.Sets con v a)
    (hdeleted : e.deleted .var = [])
    (hafter : e.after.constraints = e.before.constraints.adjustAll m) : e.TermLedger := by
  refine .kept hsets hdeleted fun con c hc => ?_
  rw [Program.findConstraint, hafter] at hc
  have hlive := Store.mem_handles_iff.2 ⟨c, hc⟩
  rw [Store.handles_adjustAll] at hlive
  obtain ⟨old, hold⟩ := Store.mem_handles_iff.1 hlive
  exact ⟨old, hold, (Arena.Leads.adjustAll hm e.before.constraints).view_eq hold hc⟩

end TermLedger

end Event

namespace Operation

variable {p : Program α} {op : Operation α}

theorem setsTerm_of_newCone? {x : ConeKind × Nat} (hop : op.newCone? = some x) :
    op.setsTerm = false := by
  cases op <;> cases hop <;> rfl

theorem setsTerm_of_variableEdit? {x : VariableId × (Variable α → Variable α)}
    (hop : op.variableEdit? = some x) : op.setsTerm = false := by
  cases op <;> cases hop <;> rfl

theorem terms_of_mem_constraintUpdates {s : Session α} :
    ∀ t ∈ s.constraintUpdates, ∀ c : Constraint α, (t.2 c).terms = c.terms := by
  intro t ht c
  obtain ⟨e, -, rfl⟩ := List.mem_map.1 ht
  rfl

variable [Zero α] [BEq α]

theorem termLedger_constraintCreated :
    (Event.mk p .createConstraint (.ok (.constraint p.constraints.nextHandle)
      { p with constraints := (p.constraints.insert .blank).2 })).TermLedger := by
  refine .of_not_sets (Event.not_sets_of_setsTerm rfl) fun con c hc => ?_
  change (p.constraints.insert .blank).2.find con = .ok c at hc
  rw [Store.find_insert] at hc
  split at hc
  case isTrue heq =>
    cases hc
    exact .inl ⟨List.mem_singleton.2 heq, fun v => rfl⟩
  case isFalse => exact .inr ⟨c, hc, fun v a => (and_iff_right List.not_mem_nil).symm⟩

theorem termLedger_coneDeleted {id : ConeId} {cone : Cone} (hcone : p.cones.find id = .ok cone) :
    (Event.mk p (.deleteCone id) (.ok .done (p.withoutCone id cone))).TermLedger := by
  refine .of_not_sets (Event.not_sets_of_setsTerm rfl) fun con c hc => ?_
  obtain ⟨old, hold, rfl⟩ := Program.find_constraints_withoutCone hc
  have hdeleted : p.coneVariables id = cone.vars := by
    rw [Program.coneVariables, Program.findCone, hcone]
  refine .inr ⟨old, hold, fun v a => ?_⟩
  rw [Constraint.coefficient_eraseTerms_eq_some_iff, ← hdeleted]
  rfl

theorem termLedger_constraintDeleted {con : ConstraintId} {c : Constraint α}
    (hcon : p.constraints.find con = .ok c) :
    (Event.mk p (.deleteConstraint con)
      (.ok .done { p with constraints := p.constraints.assign con.slot none })).TermLedger := by
  refine .kept (Event.not_sets_of_setsTerm rfl) rfl fun con' c' hc' => ?_
  change (p.constraints.assign con.slot none).find con' = .ok c' at hc'
  rw [Store.find_assign hcon] at hc'
  split at hc'
  case isTrue => cases hc'
  case isFalse => exact ⟨c', hc', rfl⟩

theorem termLedger_termSet {con : ConstraintId} {v : VariableId} {a : α}
    (hcon : con ∈ p.constraints.handles) (hv : v ∈ p.vars.handles) :
    (Event.mk p (.addVariable con v a) (.ok .done { p with
      constraints := p.constraints.adjust con (·.setTerm v a p.settings.dropZeros) })).TermLedger
    where
  live_of_sets con' v' a' h := by
    cases h.1
    exact ⟨hcon, hv⟩
  coefficient_iff con' c hc := by
    have hsets : ∀ u b, (Event.mk p (.addVariable con v a) (.ok .done { p with
        constraints := p.constraints.adjust con (·.setTerm v a p.settings.dropZeros) })).Sets
          con' u b ↔ con' = con ∧ u = v ∧ b = a := by
      intro u b
      simp [Event.Sets, eq_comm]
    change (p.constraints.adjust con _).find con' = .ok c at hc
    rw [Store.find_adjust] at hc
    simp only [hsets, Event.deleted, Event.Keeps]
    split at hc
    case isFalse hne => exact .inr ⟨c, hc, fun u b => by simp [hne]⟩
    case isTrue heq =>
      obtain ⟨old, hold⟩ := Store.mem_handles_iff.1 hcon
      rw [hold] at hc
      cases hc
      refine .inr ⟨old, heq ▸ hold, fun u b => ?_⟩
      rw [Constraint.coefficient_setTerm_eq_some_iff]
      simp [heq, and_assoc]

variable [Add α] [Mul α]

/-- However an operation ends, the coefficients after it come from those before. -/
theorem Effect.termLedger (hrefusal : op.refusal? p = none)
    {r : EStateM.Result Fault (Program α) Answer} (he : Effect p op r) :
    (Event.mk p op r).TermLedger := by
  cases he with
  | coneCreated hop hidle hkind hdim hvars =>
      exact .adjusted [] (by simp) (Event.not_sets_of_setsTerm (setsTerm_of_newCone? hop))
        (deleted_of_newCone? hop ..) rfl
  | constraintCreated hidle => exact termLedger_constraintCreated
  | coneDeleted hidle hcone => exact termLedger_coneDeleted hcone
  | constraintDeleted hidle hcon => exact termLedger_constraintDeleted hcon
  | @termSet con v a hidle hv =>
      have hcon : p.constraints.complaint? con = none := by
        rw [refusal?_of_isEdit p rfl, hidle] at hrefusal
        exact (Option.or_eq_none_iff.1 hrefusal).2
      exact termLedger_termSet (Store.complaint?_eq_none_iff_mem.1 hcon) hv
  | @rhsSet con rhs hidle =>
      exact .adjusted [(con, _)] (by simp) (Event.not_sets_of_setsTerm rfl) rfl rfl
  | variableSet hop hidle =>
      exact .adjusted [] (by simp) (Event.not_sets_of_setsTerm (setsTerm_of_variableEdit? hop))
        (deleted_of_variableEdit? hop ..) rfl
  | returned hs hret | solved hidle hsolver hret =>
      exact .adjusted _ terms_of_mem_constraintUpdates (Event.not_sets_of_setsTerm rfl) rfl rfl
  | objectiveAdded | settingsChosen | targetChosen | lent | kept | lentEdited | unsolved =>
      exact .adjusted [] (by simp) (Event.not_sets_of_setsTerm rfl) rfl rfl

theorem termLedger_event (h : p.Coherent) (op : Operation α) : (op.event p).TermLedger := by
  have houtcome := outcome_perform h op
  rw [event]
  generalize op.perform.run p = r at houtcome
  cases houtcome with
  | refused hrefusal =>
      exact .adjusted [] (by simp) (Event.not_sets_of_error rfl) (deleted_error ..) rfl
  | carriedOut hrefusal he => exact he.termLedger hrefusal

end Operation

/-! ### What a history tells -/

namespace Program

variable [Zero α] [BEq α]

/-- The coefficients of the live constraints are what the events prescribe for live variables. -/
def Obeys (p : Program α) (events : List (Event α)) : Prop :=
  ∀ con c v a, p.findConstraint con = .ok c →
    (c.coefficient v = some a ↔ v ∈ p.handles .var ∧ Event.Prescribe events con v a)

/-- One more event is obeyed if it issues handles through which nothing has been set before. -/
theorem Obeys.concat {e : Event α} {events : List (Event α)} (h : e.before.Obeys events)
    (hterms : e.TermLedger) (hvars : e.Ledger .var)
    (hfresh : ∀ con ∈ e.issued .constraint, con ∉ e.before.handles .constraint)
    (hunset : ∀ con v a, Event.Prescribe events con v a →
      con ∉ e.issued .constraint ∧ v ∉ e.issued .var) : e.after.Obeys (events ++ [e]) := by
  intro con c v a hc
  rw [hvars.mem_handles_iff, Event.prescribe_concat]
  rcases hterms.coefficient_iff con c hc with ⟨hnew, hnone⟩ | ⟨old, hold, hiff⟩
  · have hsets : ∀ b, ¬e.Sets con v b := fun b hsets =>
      hfresh con hnew (hterms.live_of_sets con v b hsets).1
    have hnever : ¬Event.Prescribe events con v a := fun hset => (hunset con v a hset).1 hnew
    simp [hnone, hsets, hnever]
  · have hlive : e.Sets con v a → v ∈ e.before.handles .var ∧ v ∉ e.deleted .var := by
      intro hsets
      rw [Event.deleted_of_sets hsets]
      exact ⟨(hterms.live_of_sets con v a hsets).2, List.not_mem_nil⟩
    have hnever : Event.Prescribe events con v a → v ∉ e.issued .var :=
      fun hset => (hunset con v a hset).2
    rw [hiff, h con old v a hold]
    tauto

end Program

namespace Operation

variable [Zero α] [Add α] [Mul α] [BEq α]

theorem issued_of_sets {id : Nat} {settings : Settings α} {ops : List (Operation α)} {e : Event α}
    (he : e ∈ trace (.empty id settings) ops) {con : ConstraintId} {v : VariableId} {a : α}
    (hsets : e.Sets con v a) :
    Issued (.empty id settings) ops con ∧ Issued (.empty id settings) ops v := by
  induction ops using List.reverseRecOn with
  | nil => cases he
  | append_singleton ops op ih =>
      rw [issued_concat, issued_concat]
      rw [trace_concat, List.mem_append, List.mem_singleton] at he
      rcases he with he | rfl
      · exact (ih he).imp .inl .inl
      · obtain ⟨hcon, hv⟩ :=
          (termLedger_event (coherent_of_empty id settings ops) op).live_of_sets con v a hsets
        exact ⟨.inl (((chronicle_of_empty id settings ops _).live_iff con).1 hcon).1,
          .inl (((chronicle_of_empty id settings ops _).live_iff v).1 hv).1⟩

theorem obeys_trace (id : Nat) (settings : Settings α) (ops : List (Operation α)) :
    (performAll (.empty id settings) ops).Obeys (trace (.empty id settings) ops) := by
  induction ops using List.reverseRecOn with
  | nil =>
      intro con c v a hc
      have hlive : con ∈ (Program.empty id settings : Program α).constraints.handles :=
        Store.mem_handles_iff.2 ⟨c, hc⟩
      cases hlive
  | append_singleton ops op ih =>
      have hcoherent := coherent_of_empty id settings ops
      have hchronicle := fun k => chronicle_of_empty id settings ops k
      rw [performAll_concat, trace_concat]
      refine ih.concat (e := op.event _) (termLedger_event hcoherent op)
        (ledger_event hcoherent op .var) ?_ ?_
      · intro con hnew hlive
        exact (hchronicle _).not_issued (ledger_event hcoherent op _) hnew
          (((hchronicle _).live_iff con).1 hlive).1
      · intro con v a hset
        obtain ⟨e, he, hsets, -⟩ := hset.exists_sets
        obtain ⟨hcon, hv⟩ := issued_of_sets he hsets
        exact ⟨fun hnew => (hchronicle _).not_issued (ledger_event hcoherent op _) hnew hcon,
          fun hnew => (hchronicle _).not_issued (ledger_event hcoherent op _) hnew hv⟩

theorem accounts_of_empty (id : Nat) (settings : Settings α) (ops : List (Operation α))
    (k : Entity) :
    ((performAll (.empty id settings) ops).store k).Accounts
      ((trace (.empty id settings) ops).flatMap (·.issued k))
      ((trace (.empty id settings) ops).flatMap (·.deleted k)) := by
  induction ops using List.reverseRecOn with
  | nil => cases k <;> exact Store.Accounts.empty id
  | append_singleton ops op ih =>
      have htold : Arena.Leads .. := told_event (coherent_of_empty id settings ops) op k
      rw [performAll_concat, trace_concat, List.flatMap_append, List.flatMap_append,
        List.flatMap_singleton, List.flatMap_singleton]
      exact htold.accounts ih

end Operation

/-! ### Terms and matrices -/

namespace Program

variable {p : Program α}

theorem Coherent.keys_terms (h : p.Coherent) {con : ConstraintId} {c : Constraint α}
    (hcon : p.findConstraint con = .ok c) :
    c.terms.toList.map (·.1) = p.vars.handles.filter fun v => (c.coefficient v).isSome := by
  refine eq_of_pairwise_of_mem_iff (fun v w hvw hwv => ?_) (List.pairwise_map.2 c.terms.sorted)
    (p.vars.handles_sorted.filter _) ?_
  · exact Handle.lt_irrefl v (Handle.lt_trans hvw hwv)
  · intro v
    rw [List.mem_filter, Option.isSome_iff_exists, List.mem_map]
    constructor
    · rintro ⟨t, ht, rfl⟩
      exact ⟨h.terms_live hcon t ht, t.2, Constraint.coefficient_eq_some_iff.2 ht⟩
    · rintro ⟨-, a, ha⟩
      exact ⟨(v, a), Constraint.coefficient_eq_some_iff.1 ha, rfl⟩

/-- What is stored in the matrix of a program are coefficients of its constraints. -/
theorem Coherent.exists_coefficient (h : p.Coherent) {a : α} (ha : a ∈ p.exported.A.value) :
    ∃ con c v, p.findConstraint con = .ok c ∧ c.coefficient v = some a := by
  rw [h.exported_A, CscMatrix.ofColumns, List.mem_toArray, List.mem_map] at ha
  obtain ⟨⟨r, a⟩, ht, rfl⟩ := ha
  obtain ⟨column, hcolumn, ht⟩ := List.mem_flatten.1 ht
  obtain ⟨v, -, rfl⟩ := List.mem_map.1 hcolumn
  obtain ⟨c, hc, hcoefficient⟩ := mem_columnEntries_iff.1 ht
  obtain ⟨con, hcon⟩ := Store.mem_values_iff.1 (List.mem_of_getElem? hc)
  exact ⟨con, c, v, hcon, hcoefficient⟩

variable [Zero α] [BEq α]

/-- The terms of the constraints of a program are those that events have left in it. -/
structure Remembers (p : Program α) (events : List (Event α)) : Prop where
  coefficient_iff : ∀ con c v a, p.findConstraint con = .ok c →
    (c.coefficient v = some a ↔
      (∃ x, p.findVariable v = .ok x) ∧ Event.Prescribe events con v a)
  mem_terms_iff : ∀ con c v a, p.findConstraint con = .ok c →
    ((v, a) ∈ c.terms.toList ↔ c.coefficient v = some a)
  terms_increase : ∀ con c, p.findConstraint con = .ok c →
    c.terms.toList.Pairwise fun s t => s.1 < t.1
  /-- The order of handles is the order in which they were issued. -/
  issued_increase : (events.flatMap (·.issued .var)).Pairwise (· < ·)
  keys_issued : ∀ con c, p.findConstraint con = .ok c →
    (c.terms.toList.map (·.1)).Sublist (events.flatMap (·.issued .var))
  size_eq : ∀ con c, p.findConstraint con = .ok c →
    c.terms.size = (p.vars.toList.filter fun e => (c.coefficient e.1).isSome).length
  /-- No check-out shows a zero if zeros have always been dropped. -/
  no_zeros : (∀ e ∈ events, e.before.settings.dropZeros = true) →
    ∀ q M, p.Lends q M → ∀ a ∈ M.A.value, (a == 0) = false

end Program

/-- The terms of a reachable program are what its history tells, whatever else was done and however
often zeros were dropped and kept in turn. -/
theorem Operation.performAll_remembers [Zero α] [Add α] [Mul α] [BEq α] (id : Nat)
    (settings : Settings α) (ops : List (Operation α)) :
    (performAll (.empty id settings) ops).Remembers (trace (.empty id settings) ops) := by
  have h := coherent_of_empty id settings ops
  have hobeys := obeys_trace id settings ops
  have haccounts := accounts_of_empty id settings ops .var
  constructor
  case coefficient_iff =>
    intro con c v a hcon
    rw [hobeys con c v a hcon]
    exact and_congr_left fun _ => Store.mem_handles_iff
  case mem_terms_iff => exact fun con c v a _ => Constraint.coefficient_eq_some_iff.symm
  case terms_increase => exact fun con c _ => c.terms.sorted
  case issued_increase => exact haccounts.increasing
  case keys_issued =>
    intro con c hcon
    have hhandles : (performAll (.empty id settings) ops).vars.handles.Sublist _ :=
      haccounts.handles_eq ▸ List.filter_sublist
    rw [h.keys_terms hcon]
    exact List.filter_sublist.trans hhandles
  case size_eq =>
    intro con c hcon
    have hlength := congrArg List.length (h.keys_terms hcon)
    rw [List.length_map, Store.handles, List.filter_map, List.length_map] at hlength
    exact hlength
  case no_zeros =>
    intro hdrop q M hlends a ha
    obtain ⟨-, rfl⟩ := h.exists_lends_iff.1 ⟨q, hlends⟩
    obtain ⟨con, c, v, hcon, hcoefficient⟩ := h.exists_coefficient ha
    obtain ⟨e, he, -, hkeeps⟩ := ((hobeys con c v a hcon).1 hcoefficient).2.exists_sets
    exact hkeeps.resolve_left (by simp [hdrop e he])

/-- A zero set while zeros are kept stays when they are dropped again, and a zero that is dropped
takes an older coefficient with it. What is refused during a check-out leaves no trace. -/
example :
    let con : ConstraintId := ⟨0, 0, 0⟩
    let x : VariableId := ⟨0, 0, 0⟩
    let y : VariableId := ⟨0, 1, 0⟩
    let z : VariableId := ⟨0, 2, 0⟩
    let p := Operation.performAll (.empty 0 ⟨true, 0, true⟩)
      ([.createSecondOrder 3, .createConstraint, .addVariable con z 7, .addVariable con x 0,
        .chooseSettings ⟨none, none, some false⟩, .addVariable con y 0,
        .chooseSettings ⟨none, none, some true⟩, .addVariable con z 0, .addVariable con x (-4),
        .checkOut, .addVariable con x 9] : List (Operation Int))
    p.constraints.values.map (·.terms.toList) = [[(x, -4), (y, 0)]] := by
  decide +kernel

end Socp
