import Socp.Proofs.Program.Outcome

/-!
Every program that operations lead to is coherent, whichever they are, in whatever order they come,
and whether or not they succeed. Read through the queries of a program, this says that its cones,
variables and constraints fit together.
-/

namespace Socp

variable {α : Type}

/-! ### What a result leaves behind -/

/-- A result leaves a program with the property, as an answer and as a failure. -/
def Leaves {β : Type} (P : Program α → Prop) : EStateM.Result Fault (Program α) β → Prop
  | .ok _ q => P q
  | .error _ q => P q

variable {P : Program α → Prop} {p : Program α}

/-! ### One operation -/

namespace Operation

variable [Zero α] [Add α] [Mul α] [BEq α]

theorem Effect.leaves_coherent (h : p.Coherent) {op : Operation α}
    {r : EStateM.Result Fault (Program α) Answer} (he : Effect p op r) :
    Leaves Program.Coherent r := by
  cases he with
  | coneCreated hop hidle hkind hdim hvars => exact h.withCone hidle hvars
  | constraintCreated hidle => exact h.insertConstraint hidle
  | coneDeleted hidle hcone => exact h.withoutCone hidle hcone
  | constraintDeleted hidle hcon => exact h.deleteConstraint hidle hcon
  | @termSet con v a hidle hv =>
      apply h.adjustConstraint
      intro c t ht
      rcases Constraint.mem_of_mem_setTerm ht with rfl | hmem
      · exact .inr hv
      · exact .inl hmem
  | @rhsSet con rhs hidle => exact h.adjustConstraint con fun c t ht => .inl ht
  | @variableSet op v f hop hidle => exact h.adjustVar v (cone_of_variableEdit? hop)
  | objectiveAdded hidle hpending =>
      apply h.adjustVars
      intro t ht x
      obtain ⟨_, -, rfl⟩ := List.mem_map.1 ht
      rfl
  | @settingsChosen choice => exact h.settings (p.settings.override choice)
  | @targetChosen target => exact h.output target
  | lent hidle => exact h.lent
  | @returned s hs hret => exact h.returned s
  | kept hs hret => exact h
  | lentEdited hs => exact h.withMatrices hs _
  | @solved solver status M hidle hsolver hret => exact (h.lentAs M).returned _
  | @unsolved solver status? M hidle hsolver hkept => exact h.lentAs M

theorem leaves_perform (h : p.Coherent) (op : Operation α) :
    Leaves Program.Coherent (op.perform.run p) := by
  have houtcome := outcome_perform h op
  generalize op.perform.run p = r at houtcome
  cases houtcome with
  | refused hrefusal => exact h
  | carriedOut hrefusal he => exact he.leaves_coherent h

/-! ### All operations -/

theorem coherent_performAll (h : p.Coherent) (ops : List (Operation α)) :
    (performAll p ops).Coherent := by
  induction ops generalizing p with
  | nil => exact h
  | cons op ops ih =>
      -- a failed operation is followed by the next one as well
      have hleaves := leaves_perform h op
      rw [performAll]
      cases hrun : op.perform.run p with
      | ok answer q =>
          rw [hrun] at hleaves
          exact ih hleaves
      | error fault q =>
          rw [hrun] at hleaves
          exact ih hleaves

theorem coherent_of_empty (id : Nat) (settings : Settings α) (ops : List (Operation α)) :
    (performAll (.empty id settings) ops).Coherent :=
  coherent_performAll (Program.coherent_empty id settings) ops

end Operation

/-! ### The graph as its queries show it -/

namespace Program

/-- Cones, variables and constraints fit together, as far as a caller can see. -/
structure WellFormed (p : Program α) : Prop where
  vars_nodup : ∀ id cone, p.findCone id = .ok cone → cone.vars.Nodup
  vars_disjoint : ∀ id cone id' cone', p.findCone id = .ok cone → p.findCone id' = .ok cone' →
    id ≠ id' → cone.vars.Disjoint cone'.vars
  /-- The variables of the live cones are the live variables. -/
  live_iff_owned : ∀ v, (∃ x, p.findVariable v = .ok x) ↔
    ∃ id cone, p.findCone id = .ok cone ∧ v ∈ cone.vars
  /-- A variable names the live cone whose list it is in. -/
  owner : ∀ v x, p.findVariable v = .ok x →
    ∃ cone, p.findCone x.cone = .ok cone ∧ v ∈ cone.vars
  minDim_le : ∀ id cone, p.findCone id = .ok cone → cone.kind.minDim ≤ cone.vars.length
  orthant_dim : ∀ id cone, p.findCone id = .ok cone → cone.kind = .orthant → cone.vars.length = 1
  /-- The variables of a cone were created one after the other. -/
  consecutive : ∀ id cone, p.findCone id = .ok cone →
    ∃ first, cone.vars.map (·.slot) = List.range' first cone.vars.length
  /-- Terms refer to live variables only. -/
  terms_live : ∀ con c, p.findConstraint con = .ok c → ∀ t ∈ c.terms.toList,
    ∃ x, p.findVariable t.1 = .ok x
  coefficient_eq_none : ∀ con c, p.findConstraint con = .ok c → ∀ v cause,
    p.findVariable v = .error cause → c.coefficient v = none
  mem_conesOfKind : ∀ kind id cone,
    (id, cone) ∈ p.conesOfKind kind ↔ p.findCone id = .ok cone ∧ cone.kind = kind
  kindCount_eq : ∀ kind, p.kindCount kind = (p.conesOfKind kind).length
  kindCount_add : p.kindCount .orthant + p.kindCount .secondOrder + p.kindCount .rotated =
    p.coneCount
  coneCount_eq : p.coneCount = p.cones.toList.length
  variableCount_eq : p.variableCount = p.vars.toList.length
  constraintCount_eq : p.constraintCount = p.constraints.toList.length

theorem countP_kind_add (cones : List Cone) :
    cones.countP (·.kind = .orthant) + cones.countP (·.kind = .secondOrder) +
      cones.countP (·.kind = .rotated) = cones.length := by
  induction cones with
  | nil => rfl
  | cons cone cones ih =>
      simp only [List.countP_cons, List.length_cons]
      cases cone.kind <;> simp <;> omega

theorem Coherent.wellFormed (h : p.Coherent) : p.WellFormed where
  vars_nodup id cone hc := h.vars_nodup hc
  vars_disjoint id cone id' cone' hc hc' hne v hv hv' := hne (h.cone_unique hc hc' hv hv')
  live_iff_owned v := by
    constructor
    · rintro ⟨x, hx⟩
      obtain ⟨cone, hcone, hv⟩ := h.exists_cone hx
      exact ⟨x.cone, cone, hcone, hv⟩
    · rintro ⟨id, cone, hcone, hv⟩
      obtain ⟨x, hx, -⟩ := h.owner hcone v hv
      exact ⟨x, hx⟩
  owner v x hx := h.exists_cone hx
  minDim_le id cone _ := cone.minDim_le_dim
  orthant_dim id cone _ hk := by
    cases cone with
    | orthant x => rfl
    | secondOrder inner apex => cases hk
    | rotated first second inner => cases hk
  consecutive id cone hc := h.consecutive hc
  terms_live con c hc t ht := Store.mem_handles_iff.1 (h.terms_live hc t ht)
  coefficient_eq_none con c hc v cause hv := by
    rw [Option.eq_none_iff_forall_ne_some]
    intro a ha
    have ht := h.terms_live hc (v, a) (Constraint.coefficient_eq_some_iff.1 ha)
    obtain ⟨x, hx⟩ := Store.mem_handles_iff.1 ht
    change p.vars.find v = .error cause at hv
    rw [hx] at hv
    cases hv
  mem_conesOfKind kind id cone := by
    rw [conesOfKind, List.mem_filter, Store.mem_toList_iff, decide_eq_true_iff]
    rfl
  kindCount_eq kind := by
    rw [kindCount, h.kindCounts_eq, conesOfKind, ← List.countP_eq_length_filter, Store.values,
      List.countP_map]
    rfl
  kindCount_add := by
    simp only [kindCount, h.kindCounts_eq]
    rw [countP_kind_add, Store.length_values]
    rfl
  coneCount_eq := p.cones.length_toList.symm
  variableCount_eq := p.vars.length_toList.symm
  constraintCount_eq := p.constraints.length_toList.symm

end Program

/-- Every reachable program has a well-formed graph. -/
theorem Operation.performAll_wellFormed [Zero α] [Add α] [Mul α] [BEq α] (id : Nat)
    (settings : Settings α) (ops : List (Operation α)) :
    (performAll (.empty id settings) ops).WellFormed :=
  (coherent_of_empty id settings ops).wellFormed

end Socp
