import Socp.Proofs.Program.History
import Socp.Proofs.Store.Fate

/-!
The three stores of a program under one name, and what the operations on the program do to each of
them: they only ever insert, update and remove, and they issue and delete just the handles that
their history tells.
-/

namespace Socp

def Entity.Content (α : Type) : Entity → Type
  | .var => Variable α
  | .cone => Cone
  | .constraint => Constraint α

/-- What never changes about an entity. -/
def Entity.Mark : Entity → Type
  | .var => ConeId
  | .cone => Cone
  | .constraint => Unit

variable {α : Type}

/-- A cone never changes at all, and a variable never changes its cone. -/
def Entity.mark : (k : Entity) → k.Content α → k.Mark
  | .var, x => Variable.cone x
  | .cone, c => c
  | .constraint, _ => ()

def Program.store (p : Program α) : (k : Entity) → Store k (k.Content α)
  | .var => p.vars
  | .cone => p.cones
  | .constraint => p.constraints

/-- The history tells what an event does to the store of one kind: it issues and removes just the
handles that the event does. -/
def Event.Told (e : Event α) (k : Entity) : Prop :=
  Arena.Leads k.mark (e.before.store k) (e.after.store k) (e.issued k) (e.deleted k)

/-- With a cone come its variables. -/
theorem Event.issued_var_of_mem {e : Event α} {id : ConeId} (hid : id ∈ e.issued .cone) :
    e.issued .var = e.after.coneVariables id := by
  obtain ⟨before, op, result⟩ := e
  cases result with
  | error fault q => cases hid
  | ok answer q =>
      cases answer with
      | cone id' =>
          rw [List.mem_singleton.1 hid]
          rfl
      | done | constraint | status => cases hid

namespace Event.Told

variable {e : Event α} {k : Entity}

theorem quiet (hafter : e.after.store k = e.before.store k) (hissued : e.issued k = [])
    (hdeleted : e.deleted k = []) : e.Told k := by
  rw [Told, hafter, hissued, hdeleted]
  exact .refl ..

theorem inserted (v : k.Content α) (n : Nat)
    (hafter : e.after.store k = ((e.before.store k).insertCopies v n).2)
    (hissued : e.issued k = ((e.before.store k).insertCopies v n).1)
    (hdeleted : e.deleted k = []) : e.Told k := by
  rw [Told, hafter, hissued, hdeleted]
  exact .insertCopies ..

theorem updated (l : List (Handle k × (k.Content α → k.Content α)))
    (hafter : e.after.store k = (e.before.store k).adjustAll l)
    (hmark : ∀ t ∈ l, ∀ v, k.mark (t.2 v) = k.mark v) (hissued : e.issued k = [])
    (hdeleted : e.deleted k = []) : e.Told k := by
  rw [Told, hafter, hissued, hdeleted]
  exact .adjustAll hmark _

theorem removed {hs : List (Handle k)} (hnodup : hs.Nodup)
    (hlive : ∀ h ∈ hs, h ∈ (e.before.store k).handles)
    (hafter : e.after.store k = (e.before.store k).clear hs) (hissued : e.issued k = [])
    (hdeleted : e.deleted k = hs) : e.Told k := by
  rw [Told, hafter, hissued, hdeleted]
  exact .clear hnodup hlive

theorem adjusted (l : List (VariableId × (Variable α → Variable α)))
    (m : List (ConstraintId × (Constraint α → Constraint α)))
    (hl : ∀ t ∈ l, ∀ x, (t.2 x).cone = x.cone) (hissued : e.issued k = [])
    (hdeleted : e.deleted k = []) (hvars : e.after.vars = e.before.vars.adjustAll l)
    (hcones : e.after.cones = e.before.cones)
    (hcons : e.after.constraints = e.before.constraints.adjustAll m) : e.Told k := by
  cases k with
  | var => exact updated l hvars hl hissued hdeleted
  | cone => exact quiet hcones hissued hdeleted
  | constraint => exact updated m hcons (fun _ _ _ => rfl) hissued hdeleted

end Event.Told

namespace Operation

variable {p : Program α} {op : Operation α}

theorem told_coneDeleted (h : p.Coherent) {id : ConeId} {cone : Cone}
    (hcone : p.cones.find id = .ok cone) (k : Entity) :
    (Event.mk p (.deleteCone id) (.ok .done (p.withoutCone id cone))).Told k := by
  cases k with
  | constraint =>
      exact Arena.Leads.mapValues (f := fun c : Constraint α => c.eraseTerms cone.vars)
        (fun _ => rfl) p.constraints
  | cone =>
      refine .removed (List.nodup_singleton id) ?_ rfl rfl rfl
      intro g hg
      rw [List.mem_singleton.1 hg]
      exact Store.mem_handles_iff.2 ⟨cone, hcone⟩
  | var =>
      have hdeleted : p.coneVariables id = cone.vars := by
        rw [Program.coneVariables, Program.findCone, hcone]
      exact .removed (h.vars_nodup hcone) (fun v hv => h.live_of_mem_vars hcone hv) rfl rfl hdeleted

theorem told_constraintDeleted {con : ConstraintId} {c : Constraint α}
    (hcon : p.constraints.find con = .ok c) (k : Entity) :
    (Event.mk p (.deleteConstraint con)
      (.ok .done { p with constraints := p.constraints.assign con.slot none })).Told k := by
  cases k with
  | var | cone => exact .quiet rfl rfl rfl
  | constraint =>
      refine .removed (List.nodup_singleton con) ?_ rfl rfl rfl
      intro g hg
      rw [List.mem_singleton.1 hg]
      exact Store.mem_handles_iff.2 ⟨c, hcon⟩

section

variable [Zero α]

theorem told_coneCreated {x : ConeKind × Nat} {cone : Cone} (hop : op.newCone? = some x)
    (hvars : cone.vars =
      (p.vars.insertCopies (Variable.blank p.cones.nextHandle : Variable α) cone.dim).1)
    (k : Entity) :
    (Event.mk p op (.ok (.cone p.cones.nextHandle) (p.withCone cone))).Told k := by
  have hdeleted := deleted_of_newCone? (p := p) hop
    (.ok (.cone p.cones.nextHandle) (p.withCone cone)) k
  cases k with
  | constraint => exact .quiet rfl rfl hdeleted
  | cone => exact .inserted cone 1 rfl rfl hdeleted
  | var =>
      have hissued : (p.withCone cone).coneVariables p.cones.nextHandle = cone.vars := by
        rw [Program.coneVariables, Program.findCone, Program.find_cones_withCone, if_pos rfl]
      exact .inserted (Variable.blank p.cones.nextHandle) cone.dim rfl (hissued.trans hvars)
        hdeleted

theorem told_constraintCreated (k : Entity) :
    (Event.mk p .createConstraint (.ok (.constraint p.constraints.nextHandle)
      { p with constraints := (p.constraints.insert .blank).2 })).Told k := by
  cases k with
  | var | cone => exact .quiet rfl rfl rfl
  | constraint => exact .inserted Constraint.blank 1 rfl rfl rfl

end

theorem cone_of_mem_map {γ : Type} {l : List γ} {t : γ → VariableId × (Variable α → Variable α)}
    (ht : ∀ e x, ((t e).2 x).cone = x.cone) : ∀ u ∈ l.map t, ∀ x, (u.2 x).cone = x.cone := by
  intro u hu x
  obtain ⟨e, -, rfl⟩ := List.mem_map.1 hu
  exact ht e x

variable [Zero α] [Add α] [Mul α] [BEq α]

/-- However an operation ends, all it has done to a store is a list of changes. -/
theorem Effect.told (h : p.Coherent) {r : EStateM.Result Fault (Program α) Answer}
    (he : Effect p op r) (k : Entity) : (Event.mk p op r).Told k := by
  cases he with
  | coneCreated hop hidle hkind hdim hvars => exact told_coneCreated hop hvars k
  | constraintCreated hidle => exact told_constraintCreated k
  | coneDeleted hidle hcone => exact told_coneDeleted h hcone k
  | constraintDeleted hidle hcon => exact told_constraintDeleted hcon k
  | @termSet con v a hidle hv =>
      cases k <;> exact .adjusted [] [(con, _)] (by simp) rfl rfl rfl rfl rfl
  | @rhsSet con rhs hidle =>
      cases k <;> exact .adjusted [] [(con, _)] (by simp) rfl rfl rfl rfl rfl
  | @variableSet op v f hop hidle =>
      have hdeleted := deleted_of_variableEdit? (p := p) hop
        (.ok .done { p with vars := p.vars.adjust v f }) k
      have hmark : ∀ t ∈ [(v, f)], ∀ x, (t.2 x).cone = x.cone := by
        intro t ht x
        rw [List.mem_singleton.1 ht]
        exact cone_of_variableEdit? hop x
      cases k <;> exact .adjusted [(v, f)] [] hmark rfl hdeleted rfl rfl rfl
  | objectiveAdded hidle hpending =>
      cases k <;> exact .adjusted _ [] (cone_of_mem_map fun _ _ => rfl) rfl rfl rfl rfl rfl
  | returned hs hret =>
      cases k <;> exact .adjusted _ _ (cone_of_mem_map fun _ _ => rfl) rfl rfl rfl rfl rfl
  | solved hidle hsolver hret =>
      cases k <;> exact .adjusted _ _ (cone_of_mem_map fun _ _ => rfl) rfl rfl rfl rfl rfl
  | settingsChosen | targetChosen | lent | kept | lentEdited | unsolved =>
      cases k <;> exact .adjusted [] [] (by simp) rfl rfl rfl rfl rfl

theorem told_event (h : p.Coherent) (op : Operation α) (k : Entity) :
    (op.event p).Told k := by
  have houtcome := outcome_perform h op
  rw [event]
  generalize op.perform.run p = r at houtcome
  cases houtcome with
  | refused hrefusal => exact .quiet rfl (by cases k <;> rfl) (deleted_error ..)
  | carriedOut hrefusal he => exact he.told h k

theorem found_of_issued (h : p.Coherent) (op : Operation α) {id : ConeId}
    (hid : id ∈ (op.event p).issued .cone) :
    ∃ cone, (op.event p).after.findCone id = .ok cone ∧ (op.event p).issued .var = cone.vars ∧
      ∀ v ∈ cone.vars, ∃ x, (op.event p).after.findVariable v = .ok x ∧ x.cone = id := by
  have hafter : (op.event p).after.Coherent := coherent_performAll h [op]
  have hlive : id ∈ (op.event p).after.cones.handles :=
    (ledger_event h op .cone).mem_handles_iff.2 (.inr hid)
  obtain ⟨cone, hcone⟩ := Store.mem_handles_iff.1 hlive
  refine ⟨cone, hcone, ?_, hafter.owner hcone⟩
  rw [Event.issued_var_of_mem hid, Program.coneVariables, Program.findCone, hcone]

end Operation

end Socp
