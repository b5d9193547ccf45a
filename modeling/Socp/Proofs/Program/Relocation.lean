import Socp.Proofs.Program.History
import Socp.Proofs.Program.Likeness
import Socp.Proofs.Store.Relocation

/-!
Programs that differ in their handles only stay so. Whatever is done to both, with handles carried
over from one to the other, ends in the same way, and they hold the same graph throughout.
-/

namespace Socp

variable {α : Type} {ρ : Relocation}

/-! ### Entities -/

def Variable.relocate (ρ : Relocation) (x : Variable α) : Variable α :=
  { x with cone := ρ.handle x.cone }

structure Cone.Relocated (ρ : Relocation) (c d : Cone) : Prop where
  kind_eq : d.kind = c.kind
  vars_eq : d.vars = c.vars.map ρ.handle

structure Constraint.Relocated (ρ : Relocation) (c d : Constraint α) : Prop where
  own : ∀ t ∈ c.terms.toList, t.1.program = ρ.source
  terms_eq : d.terms.toList = c.terms.toList.map fun t => (ρ.handle t.1, t.2)
  rhs_eq : d.rhs = c.rhs
  dual_eq : d.dual = c.dual

theorem Terms.place_relocated {v : VariableId} (hv : v.program = ρ.source) (a : α)
    {ts : List (VariableId × α)} (hts : ∀ t ∈ ts, t.1.program = ρ.source) :
    place (ρ.handle v) a (ts.map fun t => (ρ.handle t.1, t.2)) =
      (place v a ts).map fun t => (ρ.handle t.1, t.2) := by
  induction ts with
  | nil => rfl
  | cons t ts ih =>
      have hrest := ih fun t' ht' => hts t' (List.mem_cons_of_mem t ht')
      have ht := hts t List.mem_cons_self
      simp only [List.map_cons, place, hrest, Relocation.handle_lt_iff hv ht,
        Relocation.handle_eq_iff hv]
      split
      · rfl
      · split <;> rfl

namespace Constraint.Relocated

variable {c d : Constraint α}

theorem blank [Zero α] : (blank : Constraint α).Relocated ρ .blank := ⟨nofun, rfl, rfl, rfl⟩

theorem coefficient_eq (h : c.Relocated ρ d) (v : VariableId) :
    d.coefficient (ρ.handle v) = c.coefficient v := by
  ext a
  rw [coefficient_eq_some_iff, coefficient_eq_some_iff, h.terms_eq, List.mem_map]
  constructor
  · rintro ⟨t, ht, heq⟩
    obtain ⟨hvar, rfl⟩ := Prod.mk.inj heq
    rw [Relocation.handle_eq_iff (h.own t ht)] at hvar
    exact hvar ▸ ht
  · exact fun ht => ⟨(v, a), ht, rfl⟩

theorem filter_terms (h : c.Relocated ρ d) {f g : VariableId → Bool}
    (hfg : ∀ v, v.program = ρ.source → g (ρ.handle v) = f v) :
    d.terms.toList.filter (fun t => g t.1) =
      (c.terms.toList.filter fun t => f t.1).map fun t => (ρ.handle t.1, t.2) := by
  rw [h.terms_eq, List.filter_map]
  congr 1
  exact List.filter_congr fun t ht => hfg t.1 (h.own t ht)

theorem setTerm [Zero α] [BEq α] (h : c.Relocated ρ d) {v : VariableId}
    (hv : v.program = ρ.source) (a : α) (dropZeros : Bool) :
    (c.setTerm v a dropZeros).Relocated ρ (d.setTerm (ρ.handle v) a dropZeros) where
  own t ht := by
    rcases mem_of_mem_setTerm ht with heq | hmem
    · exact heq ▸ hv
    · exact h.own t hmem
  terms_eq := by
    rw [Constraint.setTerm, Constraint.setTerm]
    split
    · refine h.filter_terms (f := fun u => u ≠ v) (g := fun u => u ≠ ρ.handle v) ?_
      intro u hu
      simp [Relocation.handle_eq_iff hu]
    · show Terms.place _ a d.terms.toList = (Terms.place v a c.terms.toList).map _
      rw [h.terms_eq, Terms.place_relocated hv a h.own]
  rhs_eq := h.rhs_eq
  dual_eq := h.dual_eq

theorem eraseTerms (h : c.Relocated ρ d) (vs : List VariableId) :
    (c.eraseTerms vs).Relocated ρ (d.eraseTerms (vs.map ρ.handle)) where
  own t ht := h.own t (Terms.mem_eraseAll.1 ht).1
  terms_eq := by
    refine h.filter_terms (f := fun u => u ∉ vs) (g := fun u => u ∉ vs.map ρ.handle) ?_
    intro u hu
    have hmem : ρ.handle u ∈ vs.map ρ.handle ↔ u ∈ vs := by
      rw [List.mem_map]
      constructor
      · rintro ⟨w, hw, heq⟩
        rw [eq_comm, Relocation.handle_eq_iff hu] at heq
        exact heq ▸ hw
      · exact fun hu => ⟨u, hu, rfl⟩
    simp [hmem]
  rhs_eq := h.rhs_eq
  dual_eq := h.dual_eq

end Constraint.Relocated

/-! ### Programs -/

def Session.relocate (ρ : Relocation) (s : Session α) : Session α :=
  ⟨s.matrices, s.columns.map ρ.handle, s.rows.map ρ.handle⟩

theorem Session.returnable_relocate_iff (s : Session α) :
    (s.relocate ρ).Returnable ↔ s.Returnable := by
  simp [Returnable, relocate]

/-- The two programs hold the same, under the handles carried over. -/
structure Program.Relocated (ρ : Relocation) (p q : Program α) : Prop where
  vars : p.vars.Relocated ρ (fun x y => y = x.relocate ρ) q.vars
  cones : p.cones.Relocated ρ (Cone.Relocated ρ) q.cones
  constraints : p.constraints.Relocated ρ (Constraint.Relocated ρ) q.constraints
  session_eq : q.session = p.session.map (Session.relocate ρ)
  settings_eq : q.settings = p.settings

namespace Program.Relocated

variable {p q : Program α}

theorem isSome_session_iff (h : p.Relocated ρ q) : q.session.isSome = p.session.isSome := by
  rw [h.session_eq, Option.isSome_map]

theorem alike (h : p.Relocated ρ q) : p.Alike q where
  variables_eq := h.vars.map_values_eq fun x y hxy => hxy ▸ rfl
  constraints_eq := h.constraints.map_values_eq fun c d hcd => by rw [hcd.rhs_eq, hcd.dual_eq]
  coefficients_eq := by
    refine h.constraints.map_values_eq fun c d hcd => ?_
    rw [h.vars.handles_eq, List.map_map]
    exact List.map_congr_left fun v _ => (hcd.coefficient_eq v).symm

end Program.Relocated

/-! ### Operations -/

def Expression.relocate (ρ : Relocation) (e : Expression α) : Expression α :=
  ⟨e.summands.map fun t => ⟨t.coefficient, ρ.handle t.var⟩⟩

def Operation.relocate (ρ : Relocation) : Operation α → Operation α
  | .createOrthant => .createOrthant
  | .createSecondOrder n => .createSecondOrder n
  | .createRotated n => .createRotated n
  | .createConstraint => .createConstraint
  | .deleteCone id => .deleteCone (ρ.handle id)
  | .deleteConstraint con => .deleteConstraint (ρ.handle con)
  | .addVariable con v a => .addVariable (ρ.handle con) (ρ.handle v) a
  | .setConstrainedValue con rhs => .setConstrainedValue (ρ.handle con) rhs
  | .setObjectiveCoefficient v c => .setObjectiveCoefficient (ρ.handle v) c
  | .setPrimalValue v x => .setPrimalValue (ρ.handle v) x
  | .setDualValue v s => .setDualValue (ρ.handle v) s
  | .addToObjective e scale => .addToObjective (e.relocate ρ) scale
  | .chooseSettings choice => .chooseSettings choice
  | .printTo target => .printTo target
  | .checkOut => .checkOut
  | .checkIn => .checkIn
  | .editLent f => .editLent f
  | .solveWith solver => .solveWith solver

def Answer.relocate (ρ : Relocation) : Answer → Answer
  | .done => .done
  | .cone id => .cone (ρ.handle id)
  | .constraint con => .constraint (ρ.handle con)
  | .status s => .status s

/-- Two results that differ in their handles only. -/
inductive Agree (ρ : Relocation) {β γ : Type} (carry : β → γ) :
    EStateM.Result Fault (Program α) β → EStateM.Result Fault (Program α) γ → Prop
  | ok {b p q} (h : Program.Relocated ρ p q) : Agree ρ carry (.ok b p) (.ok (carry b) q)
  | error {fault p q} (h : Program.Relocated ρ p q) :
      Agree ρ carry (.error fault p) (.error fault q)

namespace Agree

variable {p q : Program α} {β γ : Type}

theorem done (h : p.Relocated ρ q) {carry : PUnit → PUnit} :
    Agree ρ carry (.ok ⟨⟩ p) (.ok ⟨⟩ q) :=
  .ok h

/-- What a program that is not lent does alike, any program does alike. -/
theorem of_idle (h : p.Relocated ρ q) {carry : β → γ} {r r'}
    (hr : p.session = none → Agree ρ carry r r') :
    Agree ρ carry (if p.session.isSome then .error (.refused .checkedOut) p else r)
      (if q.session.isSome then .error (.refused .checkedOut) q else r') := by
  rw [h.isSome_session_iff]
  cases hs : p.session with
  | some s => exact .error h
  | none => exact hr hs

theorem mapAnswer {β' γ' : Type} {carry : β → γ} {carry' : β' → γ'} {r r'}
    (hr : Agree ρ carry r r') {f : β → β'} {f' : γ → γ'} (hf : ∀ b, f' (carry b) = carry' (f b)) :
    Agree (α := α) ρ carry' (mapAnswer f r) (mapAnswer f' r') := by
  cases hr with
  | ok h =>
      show Agree ρ carry' (.ok _ _) (.ok _ _)
      rw [hf]
      exact .ok h
  | error h => exact .error h

theorem perform_done {x y : ProgramM α Unit}
    (hxy : Agree ρ (fun b => b) (x.run p) (y.run q)) :
    Agree ρ (Answer.relocate ρ) ((Operation.perform.done x).run p)
      ((Operation.perform.done y).run q) := by
  rw [Operation.run_done, Operation.run_done]
  exact hxy.mapAnswer fun _ => rfl

end Agree

/-! ### Edits -/

namespace Program.Relocated

variable {p q : Program α}

theorem adjustVar (h : p.Relocated ρ q) (v : VariableId) {f : Variable α → Variable α}
    (hf : ∀ x, f (x.relocate ρ) = (f x).relocate ρ) :
    Relocated ρ { p with vars := p.vars.adjust v f }
      { q with vars := q.vars.adjust (ρ.handle v) f } :=
  { h with vars := h.vars.adjust v fun x y hxy => by rw [hxy, hf] }

theorem adjustVars (h : p.Relocated ρ q) {ι : Type} (l : List (VariableId × ι))
    {f : ι → Variable α → Variable α} (hf : ∀ i x, f i (x.relocate ρ) = (f i x).relocate ρ) :
    Relocated ρ { p with vars := p.vars.adjustAll (l.map fun e => (e.1, f e.2)) }
      { q with vars := q.vars.adjustAll (l.map fun e => (ρ.handle e.1, f e.2)) } :=
  { h with vars := h.vars.adjustAll l fun i x y hxy => by rw [hxy, hf] }

theorem adjustConstraint (h : p.Relocated ρ q) (con : ConstraintId)
    {f f' : Constraint α → Constraint α} (hf : ∀ c d, c.Relocated ρ d → (f c).Relocated ρ (f' d)) :
    Relocated ρ { p with constraints := p.constraints.adjust con f }
      { q with constraints := q.constraints.adjust (ρ.handle con) f' } :=
  { h with constraints := h.constraints.adjust con hf }

theorem withCone [Zero α] (h : p.Relocated ρ q) {c d : Cone}
    (hc : c.vars = (p.vars.insertCopies (Variable.blank p.cones.nextHandle : Variable α) c.dim).1)
    (hd : d.vars = (q.vars.insertCopies (Variable.blank q.cones.nextHandle : Variable α) d.dim).1)
    (hkind : d.kind = c.kind) (hdim : d.dim = c.dim) :
    (p.withCone c).Relocated ρ (q.withCone d) := by
  have hblank : Variable.blank q.cones.nextHandle =
      (Variable.blank p.cones.nextHandle : Variable α).relocate ρ := by
    rw [h.cones.nextHandle_eq]
    rfl
  obtain ⟨hhandles, hvars⟩ := h.vars.insertCopies hblank c.dim
  have hcone : c.Relocated ρ d := ⟨hkind, by rw [hd, hdim, hhandles, ← hc]⟩
  constructor
  case vars =>
    rw [Program.withCone, Program.withCone, hdim]
    exact hvars
  case cones => exact h.cones.insert hcone
  case constraints => exact h.constraints
  case session_eq => exact h.session_eq
  case settings_eq => exact h.settings_eq

theorem withoutCone (h : p.Relocated ρ q) (hp : p.Coherent) {id : ConeId} {c d : Cone}
    (hc : p.cones.find id = .ok c) (hd : q.cones.find (ρ.handle id) = .ok d)
    (hcd : c.Relocated ρ d) : (p.withoutCone id c).Relocated ρ (q.withoutCone (ρ.handle id) d) where
  vars := by
    show (p.vars.clear c.vars).Relocated ρ _ (q.vars.clear d.vars)
    rw [hcd.vars_eq]
    exact h.vars.clear (hp.vars_nodup hc) fun v hv => hp.live_of_mem_vars hc hv
  cones := h.cones.assign_none hc hd
  constraints := by
    refine h.constraints.mapValues fun con con' hcon => ?_
    rw [hcd.vars_eq]
    exact hcon.eraseTerms c.vars
  session_eq := h.session_eq
  settings_eq := h.settings_eq

end Program.Relocated

/-! ### Loans -/

namespace Program.Relocated

variable {p q : Program α}

theorem loan_eq [Zero α] [BEq α] (h : p.Relocated ρ q) (hp : p.Coherent) (hq : q.Coherent) :
    q.loan = p.loan.relocate ρ := by
  have hcolumns : q.columnOrder = p.columnOrder.map ρ.handle := by
    rw [hq.columnOrder_eq, hp.columnOrder_eq, h.vars.handles_eq]
  have hrows : q.rowOrder = p.rowOrder.map ρ.handle := h.constraints.handles_eq
  rw [loan, loan, Session.relocate, h.alike.exported_eq hp hq, hcolumns, hrows]

theorem lentAs [Zero α] [BEq α] (h : p.Relocated ρ q) (hp : p.Coherent) (hq : q.Coherent)
    (M : Matrices α) : (p.lentAs M).Relocated ρ (q.lentAs M) where
  vars := h.vars
  cones := h.cones
  constraints := h.constraints
  session_eq := by
    show some (q.loan.withMatrices M) = some ((p.loan.withMatrices M).relocate ρ)
    rw [h.loan_eq hp hq]
    rfl
  settings_eq := h.settings_eq

theorem returned (h : p.Relocated ρ q) (s : Session α) :
    (p.returned s).Relocated ρ (q.returned (s.relocate ρ)) where
  vars := by
    have hupdates : (s.relocate ρ).variableUpdates =
        (s.columns.zip (s.matrices.x.toList.zip s.matrices.s.toList)).map
          fun e : VariableId × α × α =>
            (ρ.handle e.1, ({ · with primal := e.2.1, dual := e.2.2 })) := by
      rw [Session.variableUpdates, Session.relocate, List.zip_map_left, List.map_map]
      rfl
    show (p.vars.adjustAll s.variableUpdates).Relocated ρ _
      (q.vars.adjustAll (s.relocate ρ).variableUpdates)
    rw [hupdates]
    refine h.vars.adjustAll _ (f := fun (e : α × α) x => { x with primal := e.1, dual := e.2 })
      (g := fun e x => { x with primal := e.1, dual := e.2 }) ?_
    rintro e x _ rfl
    rfl
  cones := h.cones
  constraints := by
    have hupdates : (s.relocate ρ).constraintUpdates =
        (s.rows.zip s.matrices.w.toList).map fun e : ConstraintId × α =>
          (ρ.handle e.1, ({ · with dual := e.2 })) := by
      rw [Session.constraintUpdates, Session.relocate, List.zip_map_left, List.map_map]
      rfl
    show (p.constraints.adjustAll s.constraintUpdates).Relocated ρ _
      (q.constraints.adjustAll (s.relocate ρ).constraintUpdates)
    rw [hupdates]
    refine h.constraints.adjustAll _ (f := fun w c => { c with dual := w })
      (g := fun w c => { c with dual := w }) ?_
    intro w c d hcd
    exact ⟨hcd.own, hcd.terms_eq, hcd.rhs_eq, rfl⟩
  session_eq := rfl
  settings_eq := h.settings_eq

end Program.Relocated

/-! ### One operation -/

namespace ProgramM

variable {p q : Program α}

theorem agree_createCone [Zero α] (h : p.Relocated ρ q) (kind : ConeKind) (n : Nat)
    (horthant : kind = .orthant → n = 1) :
    Agree ρ ρ.handle ((createCone kind n).run p) ((createCone kind n).run q) := by
  cases hs : p.session with
  | some s =>
      have hs' : q.session.isSome := by rw [h.isSome_session_iff, hs]; rfl
      rw [run_createCone_of_session (by simp [hs]), run_createCone_of_session hs']
      exact .error h
  | none =>
      have hs' : q.session = none := by rw [h.session_eq, hs]; rfl
      by_cases hn : n < kind.minDim
      · rw [run_createCone_of_lt hs hn, run_createCone_of_lt hs' hn]
        exact .error h
      · have hmin := Nat.le_of_not_lt hn
        obtain ⟨c, hkind, hdim, hvars, hrun⟩ := run_createCone hs hmin horthant
        obtain ⟨d, hkind', hdim', hvars', hrun'⟩ := run_createCone hs' hmin horthant
        rw [hrun, hrun', h.cones.nextHandle_eq]
        exact .ok (h.withCone hvars hvars' (hkind'.trans hkind.symm) (hdim'.trans hdim.symm))

theorem agree_createConstraint [Zero α] (h : p.Relocated ρ q) :
    Agree ρ ρ.handle (createConstraint.run p) (createConstraint.run q) := by
  rw [run_createConstraint, run_createConstraint]
  refine .of_idle h fun _ => ?_
  rw [h.constraints.nextHandle_eq]
  exact .ok { h with constraints := h.constraints.insert .blank }

theorem agree_deleteCone (h : p.Relocated ρ q) (hp : p.Coherent) (hq : q.Coherent) (id : ConeId) :
    Agree ρ (fun b => b) ((deleteCone id).run p) ((deleteCone (ρ.handle id)).run q) := by
  rw [run_deleteCone hp, run_deleteCone hq]
  refine .of_idle h fun _ => ?_
  rcases h.cones.find_cases id with ⟨c, d, hc, hd, hcd⟩ | ⟨cause, hc, hd⟩
  · rw [hc, hd]
    exact .done (h.withoutCone hp hc hd hcd)
  · rw [hc, hd]
    exact .error h

theorem agree_deleteConstraint (h : p.Relocated ρ q) (con : ConstraintId) :
    Agree ρ (fun b => b) ((deleteConstraint con).run p)
      ((deleteConstraint (ρ.handle con)).run q) := by
  rw [run_deleteConstraint, run_deleteConstraint]
  refine .of_idle h fun _ => ?_
  rcases h.constraints.find_cases con with ⟨c, d, hc, hd, -⟩ | ⟨cause, hc, hd⟩
  · rw [hc, hd]
    refine .done ?_
    exact { h with constraints := h.constraints.assign_none hc hd }
  · rw [hc, hd]
    exact .error h

theorem agree_updateVariable (h : p.Relocated ρ q) (v : VariableId) {f : Variable α → Variable α}
    (hf : ∀ x, f (x.relocate ρ) = (f x).relocate ρ) :
    Agree ρ (fun b => b) ((requireIdle >>= fun _ => updateVariable v f).run p)
      ((requireIdle >>= fun _ => updateVariable (ρ.handle v) f).run q) := by
  rw [run_requireIdle_updateVariable, run_requireIdle_updateVariable]
  refine .of_idle h fun _ => ?_
  rcases h.vars.find_cases v with ⟨x, y, hx, hy, -⟩ | ⟨cause, hx, hy⟩
  · rw [hx, hy]
    exact .done (h.adjustVar v hf)
  · rw [hx, hy]
    exact .error h

theorem agree_setConstrainedValue (h : p.Relocated ρ q) (con : ConstraintId) (rhs : α) :
    Agree ρ (fun b => b) ((setConstrainedValue con rhs).run p)
      ((setConstrainedValue (ρ.handle con) rhs).run q) := by
  rw [run_setConstrainedValue, run_setConstrainedValue]
  refine .of_idle h fun _ => ?_
  rcases h.constraints.find_cases con with ⟨c, d, hc, hd, -⟩ | ⟨cause, hc, hd⟩
  · rw [hc, hd]
    refine .done (h.adjustConstraint con ?_)
    exact fun c d hcd => ⟨hcd.own, hcd.terms_eq, rfl, hcd.dual_eq⟩
  · rw [hc, hd]
    exact .error h

theorem agree_addVariable [Zero α] [BEq α] (h : p.Relocated ρ q) (con : ConstraintId)
    (v : VariableId) (a : α) :
    Agree ρ (fun b => b) ((addVariable con v a).run p)
      ((addVariable (ρ.handle con) (ρ.handle v) a).run q) := by
  have hdrop : q.settings.dropZeros = p.settings.dropZeros := by rw [h.settings_eq]
  rw [run_addVariable, run_addVariable]
  refine .of_idle h fun _ => ?_
  rcases h.vars.find_cases v with ⟨x, y, hx, hy, -⟩ | ⟨cause, hx, hy⟩
  · have hown := h.vars.own (Store.mem_handles_iff.2 ⟨x, hx⟩)
    rw [hx, hy, hdrop]
    dsimp only
    rcases h.constraints.find_cases con with ⟨c, d, hc, hd, -⟩ | ⟨cause, hc, hd⟩
    · rw [hc, hd]
      exact .done (h.adjustConstraint con fun c d hcd => hcd.setTerm hown a _)
    · rw [hc, hd]
      exact .error h
  · rw [hx, hy]
    exact .error h

end ProgramM

/-! ### Pending coefficients -/

namespace Expression

variable {p q : Program α}

theorem lookup_relocated {pending : List (VariableId × α)}
    (hown : ∀ t ∈ pending, t.1.program = ρ.source) (v : VariableId) :
    (pending.map fun t => (ρ.handle t.1, t.2)).lookup (ρ.handle v) = pending.lookup v := by
  induction pending with
  | nil => rfl
  | cons t pending ih =>
      have hkey : ρ.handle v = ρ.handle t.1 ↔ v = t.1 := by
        rw [eq_comm, Relocation.handle_eq_iff (hown t List.mem_cons_self), eq_comm]
      rw [List.map_cons, Terms.lookup_cons, Terms.lookup_cons,
        ih fun t' ht' => hown t' (List.mem_cons_of_mem t ht')]
      simp only [hkey]

variable [Add α] [Mul α]

theorem pend_relocated (h : p.Relocated ρ q) (scale : α) {pending : List (VariableId × α)}
    (hlive : ∀ e ∈ pending, e.1 ∈ p.vars.handles) (t : Summand α) :
    pend q scale (pending.map fun t => (ρ.handle t.1, t.2)) ⟨t.coefficient, ρ.handle t.var⟩ =
      (pend p scale pending t).map (List.map fun t => (ρ.handle t.1, t.2)) := by
  rw [pend, pend, lookup_relocated (fun e he => h.vars.own (hlive e he))]
  cases pending.lookup t.var with
  | some c => rfl
  | none =>
      dsimp only [Program.findVariable]
      rcases h.vars.find_cases t.var with ⟨x, y, hx, hy, rfl⟩ | ⟨cause, hx, hy⟩
      · rw [hx, hy]
        rfl
      · rw [hx, hy]
        rfl

theorem pendingObjective_relocated (h : p.Relocated ρ q) (e : Expression α) (scale : α) :
    (e.relocate ρ).pendingObjective q scale =
      (e.pendingObjective p scale).map (List.map fun t => (ρ.handle t.1, t.2)) := by
  have hfold : ∀ (summands : List (Summand α)) (start : List (VariableId × α)),
      (∀ t ∈ start, t.1 ∈ p.vars.handles) →
      (summands.map fun t => ⟨t.coefficient, ρ.handle t.var⟩).foldlM (pend q scale)
          (start.map fun t => (ρ.handle t.1, t.2)) =
        (summands.foldlM (pend p scale) start).map
          (List.map fun t => (ρ.handle t.1, t.2)) := by
    intro summands
    induction summands with
    | nil => exact fun start _ => rfl
    | cons t summands ih =>
        intro start hlive
        rw [List.map_cons, List.foldlM_cons, List.foldlM_cons, pend_relocated h scale hlive]
        cases hstep : pend p scale start t with
        | error cause => rfl
        | ok next => exact ih next (live_of_pend hstep hlive)
  exact hfold e.summands [] fun t ht => absurd ht List.not_mem_nil

theorem agree_addToObjective (h : p.Relocated ρ q) (e : Expression α) (scale : α) :
    Agree ρ (fun b => b) ((e.addToObjective scale).run p)
      (((e.relocate ρ).addToObjective scale).run q) := by
  rw [run_addToObjective, run_addToObjective, pendingObjective_relocated h]
  refine .of_idle h fun _ => ?_
  cases e.pendingObjective p scale with
  | error cause => exact .error h
  | ok pending =>
      refine .done ?_
      rw [← List.map_reverse, List.map_map]
      exact h.adjustVars pending.reverse (f := fun c x => { x with objective := c }) fun c x => rfl

end Expression

/-! ### Lending and taking back -/

namespace ProgramM

variable {p q : Program α}

theorem agree_checkOut [Zero α] [BEq α] (h : p.Relocated ρ q) (hp : p.Coherent)
    (hq : q.Coherent) :
    Agree ρ (fun b => b) ((checkOut : ProgramM α Unit).run p) (checkOut.run q) := by
  have hlent : q.lent = q.lentAs p.exported := by
    rw [h.alike.exported_eq hp hq]
    rfl
  rw [run_checkOut hp, run_checkOut hq, hlent]
  exact .of_idle h fun _ => .done (h.lentAs hp hq p.exported)

theorem agree_checkIn (h : p.Relocated ρ q) (hp : p.Coherent) (hq : q.Coherent) :
    Agree ρ (fun b => b) ((checkIn : ProgramM α Unit).run p) (checkIn.run q) := by
  rw [run_checkIn hp, run_checkIn hq, h.session_eq]
  cases p.session with
  | none => exact .error h
  | some s =>
      dsimp only [Option.map_some]
      by_cases hret : s.Returnable
      · rw [if_pos hret, if_pos (s.returnable_relocate_iff.2 hret)]
        exact .done (h.returned s)
      · rw [if_neg hret, if_neg (mt s.returnable_relocate_iff.1 hret)]
        exact .error h

theorem agree_editLent {β : Type} (h : p.Relocated ρ q) (f : Matrices α → β × Matrices α) :
    Agree ρ (fun b => b) ((editLent f).run p) ((editLent f).run q) := by
  rw [run_editLent, run_editLent, h.session_eq]
  cases p.session with
  | none => exact .error h
  | some s =>
      refine .ok ?_
      exact { h with session_eq := rfl }

theorem agree_solveWith [Zero α] [BEq α] {τ : Type} (h : p.Relocated ρ q) (hp : p.Coherent)
    (hq : q.Coherent) (solver : Matrices α → Option τ × Matrices α) :
    Agree ρ (fun b => b) ((solveWith solver).run p) ((solveWith solver).run q) := by
  rw [run_solveWith hp, run_solveWith hq, ← h.alike.exported_eq hp hq]
  refine .of_idle h fun _ => ?_
  have hlent := h.lentAs hp hq (solver p.exported).2
  have hloan : q.loan.withMatrices (solver p.exported).2 =
      (p.loan.withMatrices (solver p.exported).2).relocate ρ := by
    rw [h.loan_eq hp hq]
    rfl
  dsimp only
  cases (solver p.exported).1 with
  | none => exact .error hlent
  | some status =>
      dsimp only
      rw [hloan]
      by_cases hret : (p.loan.withMatrices (solver p.exported).2).Returnable
      · rw [if_pos hret, if_pos ((Session.returnable_relocate_iff _).2 hret)]
        have hback := hlent.returned (p.loan.withMatrices (solver p.exported).2)
        rw [Program.lentAs, Program.lentAs, hloan] at hback
        exact .ok hback
      · rw [if_neg hret, if_neg (mt (Session.returnable_relocate_iff _).1 hret)]
        rw [Program.lentAs, Program.lentAs, hloan] at hlent
        exact .error hlent

end ProgramM

/-! ### One operation, and all of them -/

/-- What the caller learns from an event. -/
def Event.reply (e : Event α) : Except Fault Answer :=
  match e.result with
  | .ok answer _ => .ok answer
  | .error fault _ => .error fault

namespace Operation

variable [Zero α] [Add α] [Mul α] [BEq α] {p q : Program α}

/-- What is done to both programs, with the handles carried over, ends alike. -/
theorem agree_perform (h : p.Relocated ρ q) (hp : p.Coherent) (hq : q.Coherent)
    (op : Operation α) :
    Agree ρ (Answer.relocate ρ) (op.perform.run p) ((op.relocate ρ).perform.run q) := by
  cases op with
  | createOrthant =>
      rw [relocate, perform, ProgramM.run_map, ProgramM.run_map]
      exact (ProgramM.agree_createCone h .orthant 1 fun _ => rfl).mapAnswer fun _ => rfl
  | createSecondOrder n =>
      rw [relocate, perform, ProgramM.run_map, ProgramM.run_map]
      exact (ProgramM.agree_createCone h .secondOrder n (by simp)).mapAnswer fun _ => rfl
  | createRotated n =>
      rw [relocate, perform, ProgramM.run_map, ProgramM.run_map]
      exact (ProgramM.agree_createCone h .rotated n (by simp)).mapAnswer fun _ => rfl
  | createConstraint =>
      rw [relocate, perform, ProgramM.run_map, ProgramM.run_map]
      exact (ProgramM.agree_createConstraint h).mapAnswer fun _ => rfl
  | deleteCone id => exact .perform_done (ProgramM.agree_deleteCone h hp hq id)
  | deleteConstraint con => exact .perform_done (ProgramM.agree_deleteConstraint h con)
  | addVariable con v a => exact .perform_done (ProgramM.agree_addVariable h con v a)
  | setConstrainedValue con rhs =>
      exact .perform_done (ProgramM.agree_setConstrainedValue h con rhs)
  | setObjectiveCoefficient v c =>
      exact .perform_done (ProgramM.agree_updateVariable h v fun _ => rfl)
  | setPrimalValue v x => exact .perform_done (ProgramM.agree_updateVariable h v fun _ => rfl)
  | setDualValue v s => exact .perform_done (ProgramM.agree_updateVariable h v fun _ => rfl)
  | addToObjective e scale => exact .perform_done (e.agree_addToObjective h scale)
  | chooseSettings choice =>
      refine .perform_done (.done ?_)
      exact { h with settings_eq := congrArg (Settings.override · choice) h.settings_eq }
  | printTo target =>
      refine .perform_done (.done ?_)
      exact { h with settings_eq := h.settings_eq }
  | checkOut => exact .perform_done (ProgramM.agree_checkOut h hp hq)
  | checkIn => exact .perform_done (ProgramM.agree_checkIn h hp hq)
  | editLent f => exact .perform_done (ProgramM.agree_editLent h _)
  | solveWith solver =>
      rw [relocate, perform, ProgramM.run_map, ProgramM.run_map]
      exact (ProgramM.agree_solveWith h hp hq solver).mapAnswer fun _ => rfl

theorem relocated_performAll (h : p.Relocated ρ q) (hp : p.Coherent) (hq : q.Coherent)
    (ops : List (Operation α)) :
    (performAll p ops).Relocated ρ (performAll q (ops.map (relocate ρ))) ∧
      (trace q (ops.map (relocate ρ))).map Event.reply =
        (trace p ops).map fun e => e.reply.map (Answer.relocate ρ) := by
  induction ops generalizing p q with
  | nil => exact ⟨h, rfl⟩
  | cons op ops ih =>
      have hagree := agree_perform h hp hq op
      have hstep : (op.event p).after.Relocated ρ ((op.relocate ρ).event q).after ∧
          ((op.relocate ρ).event q).reply = (op.event p).reply.map (Answer.relocate ρ) := by
        rw [event, event]
        generalize op.perform.run p = r at hagree
        generalize (op.relocate ρ).perform.run q = r' at hagree
        cases hagree with
        | ok h' => exact ⟨h', rfl⟩
        | error h' => exact ⟨h', rfl⟩
      have hp' : (op.event p).after.Coherent := coherent_performAll hp [op]
      have hq' : ((op.relocate ρ).event q).after.Coherent :=
        coherent_performAll hq [op.relocate ρ]
      obtain ⟨hrun, hreplies⟩ := ih hstep.1 hp' hq'
      rw [List.map_cons, performAll_cons, performAll_cons, trace, trace, List.map_cons,
        List.map_cons, hreplies, hstep.2]
      exact ⟨hrun, rfl⟩

end Operation

end Socp
