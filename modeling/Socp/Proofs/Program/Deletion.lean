import Mathlib.Algebra.Ring.Int.Defs
import Socp.Proofs.Program.Relocation
import Socp.Proofs.Store.Commutation

/-!
Deleting several cones and constraints. A cone takes its variables along, and their terms in
whichever constraints are still there, so on the way every order goes through programs of its own.
In the end all orders meet: deletions commute, slot by slot.
-/

namespace Socp

/-- What can be deleted on its own. -/
inductive Deletion
  | cone (id : ConeId)
  | constraint (con : ConstraintId)
deriving DecidableEq

variable {α : Type}

def Deletion.operation : Deletion → Operation α
  | .cone id => .deleteCone id
  | .constraint con => .deleteConstraint con

namespace Program

def Holds (p : Program α) : Deletion → Prop
  | .cone id => ∃ cone, p.findCone id = .ok cone
  | .constraint con => ∃ c, p.findConstraint con = .ok c

instance (p : Program α) : (d : Deletion) → Decidable (p.Holds d)
  | .cone id =>
    match hcone : p.findCone id with
    | .ok cone => isTrue ⟨cone, hcone⟩
    | .error e => isFalse (by
        rintro ⟨cone, hfound⟩
        rw [hcone] at hfound
        cases hfound)
  | .constraint con =>
    match hcon : p.findConstraint con with
    | .ok c => isTrue ⟨c, hcon⟩
    | .error e => isFalse (by
        rintro ⟨c, hfound⟩
        rw [hcon] at hfound
        cases hfound)

/-- The variables that go with the targets of deletions. -/
def gone (p : Program α) (ds : List Deletion) : List VariableId :=
  ds.flatMap fun
    | .cone id => p.coneVariables id
    | .constraint _ => []

/-- `q` is `p` without the targets of the deletions, without their variables and without the terms
in these. -/
structure Without (p : Program α) (ds : List Deletion) (q : Program α) : Prop where
  cone_eq : ∀ id, q.findCone id =
    if .cone id ∈ ds then .error (.staleHandle .cone) else p.findCone id
  variable_eq : ∀ v, q.findVariable v =
    if v ∈ p.gone ds then .error (.staleHandle .var) else p.findVariable v
  constraint_eq : ∀ con, q.findConstraint con =
    if .constraint con ∈ ds then .error (.staleHandle .constraint)
    else (p.findConstraint con).map (·.eraseTerms (p.gone ds))
  next_cone : q.cones.nextHandle = p.cones.nextHandle
  next_variable : q.vars.nextHandle = p.vars.nextHandle
  next_constraint : q.constraints.nextHandle = p.constraints.nextHandle
  session_eq : q.session = p.session
  settings_eq : q.settings = p.settings
  output_eq : q.output = p.output

/-- Nothing is live in the program, and it is not lent. -/
structure Bare (p : Program α) : Prop where
  session_eq : p.session = none
  variableCount_eq : p.variableCount = 0
  coneCount_eq : p.coneCount = 0
  constraintCount_eq : p.constraintCount = 0

/-- There is nothing in the program, whichever way one looks. -/
structure Vacant [Zero α] [BEq α] (p : Program α) : Prop where
  bare : p.Bare
  kindCount_eq : ∀ kind, p.kindCount kind = 0
  cones_eq : p.cones.toList = []
  conesOfKind_eq : ∀ kind, p.conesOfKind kind = []
  variables_eq : p.vars.toList = []
  constraints_eq : p.constraints.toList = []
  checkOut : ∃ q M, p.Lends q M ∧ M.size = (0, 0)

/-! ### One deletion -/

/-- What a deletion leaves; one without a target leaves everything. -/
def without (p : Program α) : Deletion → Program α
  | .cone id =>
    match p.cones.find id with
    | .ok cone => p.withoutCone id cone
    | .error _ => p
  | .constraint con =>
    match p.constraints.find con with
    | .ok _ => { p with constraints := p.constraints.assign con.slot none }
    | .error _ => p

theorem without_cone {p : Program α} {id : ConeId} {cone : Cone}
    (hcone : p.cones.find id = .ok cone) : p.without (.cone id) = p.withoutCone id cone := by
  rw [without, hcone]

theorem without_constraint {p : Program α} {con : ConstraintId} {c : Constraint α}
    (hcon : p.constraints.find con = .ok c) :
    p.without (.constraint con) =
      { p with constraints := p.constraints.assign con.slot none } := by
  rw [without, hcon]

theorem without_of_not_holds {p : Program α} {d : Deletion} (hd : ¬p.Holds d) :
    p.without d = p := by
  cases d with
  | cone id =>
      cases hcone : p.cones.find id with
      | ok cone => exact absurd ⟨cone, hcone⟩ hd
      | error e => rw [without, hcone]
  | constraint con =>
      cases hcon : p.constraints.find con with
      | ok c => exact absurd ⟨c, hcon⟩ hd
      | error e => rw [without, hcon]

theorem gone_cone {p : Program α} {id : ConeId} {cone : Cone}
    (hcone : p.cones.find id = .ok cone) : p.gone [.cone id] = cone.vars := by
  simp [gone, coneVariables, findCone, hcone]

theorem find_cones_without (p : Program α) {d : Deletion} {id : ConeId} (hne : .cone id ≠ d) :
    (p.without d).cones.find id = p.cones.find id := by
  by_cases hd : p.Holds d
  · cases d with
    | cone id' =>
        obtain ⟨cone, hcone⟩ := hd
        have hid : id ≠ id' := fun h => hne (congrArg Deletion.cone h)
        rw [without_cone hcone, withoutCone, Store.find_assign hcone, if_neg hid]
    | constraint con =>
        obtain ⟨c, hcon⟩ := hd
        rw [without_constraint hcon]
  · rw [without_of_not_holds hd]

theorem find_constraints_without (p : Program α) {d : Deletion} {con : ConstraintId}
    (hne : .constraint con ≠ d) :
    (p.without d).constraints.find con =
      (p.constraints.find con).map (·.eraseTerms (p.gone [d])) := by
  have hnone : (p.constraints.find con).map (·.eraseTerms []) = p.constraints.find con := by
    cases p.constraints.find con <;> simp [Except.map]
  by_cases hd : p.Holds d
  · cases d with
    | cone id =>
        obtain ⟨cone, hcone⟩ := hd
        rw [without_cone hcone, withoutCone, Store.find_mapValues, gone_cone hcone]
    | constraint con' =>
        obtain ⟨c, hcon⟩ := hd
        have hcon' : con ≠ con' := fun h => hne (congrArg Deletion.constraint h)
        rw [without_constraint hcon, Store.find_assign hcon, if_neg hcon']
        exact hnone.symm
  · have hgone : p.gone [d] = [] := by
      cases d with
      | cone id =>
          cases hcone : p.cones.find id with
          | ok cone => exact absurd ⟨cone, hcone⟩ hd
          | error e => simp [gone, coneVariables, findCone, hcone]
      | constraint con' => rfl
    rw [without_of_not_holds hd, hgone, hnone]

theorem holds_without_iff (p : Program α) {d e : Deletion} (hne : e ≠ d) :
    (p.without d).Holds e ↔ p.Holds e := by
  cases e with
  | cone id =>
      simp only [Holds, findCone, p.find_cones_without hne]
  | constraint con =>
      simp only [Holds, findConstraint, p.find_constraints_without hne]
      cases p.constraints.find con <;> simp [Except.map]

/-! ### The order of deletions -/

theorem withoutCone_comm (p : Program α) (id id' : ConeId) (cone cone' : Cone) :
    (p.withoutCone id cone).withoutCone id' cone' =
      (p.withoutCone id' cone').withoutCone id cone := by
  have hcounts : ∀ (n : KindCounts) (kind kind' : ConeKind),
      (n.set kind (n.get kind - 1)).set kind' ((n.set kind (n.get kind - 1)).get kind' - 1) =
        (n.set kind' (n.get kind' - 1)).set kind
          ((n.set kind' (n.get kind' - 1)).get kind - 1) := by
    intro n kind kind'
    cases kind <;> cases kind' <;> rfl
  have hterms : (fun c : Constraint α => (c.eraseTerms cone.vars).eraseTerms cone'.vars) =
      fun c => (c.eraseTerms cone'.vars).eraseTerms cone.vars :=
    funext fun c => c.eraseTerms_comm cone.vars cone'.vars
  simp only [withoutCone, Store.mapValues_mapValues, hterms, hcounts,
    p.cones.assign_none_comm id.slot, p.vars.clear_clear_comm cone.vars]

theorem withoutCone_deleteConstraint (p : Program α) (id : ConeId) (cone : Cone)
    (con : ConstraintId) :
    { p with constraints := p.constraints.assign con.slot none }.withoutCone id cone =
      { p.withoutCone id cone with
        constraints := (p.withoutCone id cone).constraints.assign con.slot none } := by
  simp only [withoutCone, Store.mapValues_assign_none]

/-- Deletions trade places, whatever they find. -/
theorem without_comm (p : Program α) (d e : Deletion) :
    (p.without d).without e = (p.without e).without d := by
  by_cases hne : e = d
  · rw [hne]
  by_cases hd : p.Holds d
  case neg =>
    have hd' : ¬(p.without e).Holds d := by rwa [p.holds_without_iff (Ne.symm hne)]
    rw [without_of_not_holds hd, without_of_not_holds hd']
  by_cases he : p.Holds e
  case neg =>
    have he' : ¬(p.without d).Holds e := by rwa [p.holds_without_iff hne]
    rw [without_of_not_holds he, without_of_not_holds he']
  -- both targets are there, and each is there still when the other has gone
  have hd' := (p.holds_without_iff (Ne.symm hne)).2 hd
  have he' := (p.holds_without_iff hne).2 he
  cases d with
  | cone id =>
      obtain ⟨cone, hcone⟩ := hd
      have hstay := (p.find_cones_without (Ne.symm hne)).trans hcone
      cases e with
      | cone id' =>
          obtain ⟨cone', hcone'⟩ := he
          have hstay' := (p.find_cones_without hne).trans hcone'
          rw [without_cone hstay, without_cone hstay', without_cone hcone, without_cone hcone',
            withoutCone_comm]
      | constraint con =>
          obtain ⟨c, hcon⟩ := he
          obtain ⟨c', hcon'⟩ := he'
          rw [without_cone hstay, without_constraint hcon', without_cone hcone,
            without_constraint hcon, withoutCone_deleteConstraint]
  | constraint con =>
      obtain ⟨c, hcon⟩ := hd
      obtain ⟨c', hcon'⟩ := hd'
      cases e with
      | cone id =>
          obtain ⟨cone, hcone⟩ := he
          have hstay := (p.find_cones_without hne).trans hcone
          rw [without_cone hstay, without_constraint hcon', without_cone hcone,
            without_constraint hcon, withoutCone_deleteConstraint]
      | constraint con₂ =>
          obtain ⟨c₂, hcon₂⟩ := he
          obtain ⟨c₂', hcon₂'⟩ := he'
          rw [without_constraint hcon', without_constraint hcon₂', without_constraint hcon,
            without_constraint hcon₂]
          simp only [p.constraints.assign_none_comm con.slot]

/-! ### What deletions leave -/

theorem Coherent.without_one {p : Program α} (h : p.Coherent) {d : Deletion} (hd : p.Holds d) :
    p.Without [d] (p.without d) := by
  have hleft : ∀ con, .constraint con ≠ d → (p.without d).findConstraint con =
      (p.findConstraint con).map (·.eraseTerms (p.gone [d])) :=
    fun _ => p.find_constraints_without
  cases d with
  | cone id =>
      obtain ⟨cone, hcone⟩ := hd
      rw [without_cone hcone] at hleft ⊢
      constructor
      case cone_eq =>
        intro id'
        simp [findCone, Program.withoutCone, Store.find_assign hcone]
      case variable_eq =>
        intro v
        rw [gone_cone hcone]
        exact h.find_vars_withoutCone hcone v
      case constraint_eq =>
        intro con
        rw [hleft con (by simp), if_neg (by simp)]
      case session_eq | settings_eq | output_eq => rfl
      all_goals simp [Store.nextHandle, Program.withoutCone]
  | constraint con =>
      obtain ⟨c, hcon⟩ := hd
      rw [without_constraint hcon] at hleft ⊢
      constructor
      case constraint_eq =>
        intro con'
        by_cases heq : con' = con
        · subst heq
          simp [findConstraint, Store.find_assign hcon]
        · rw [hleft con' (by simpa using heq), if_neg (by simpa using heq)]
      case next_constraint => simp [Store.nextHandle]
      all_goals intros; rfl

/-- A deletion and then others, of targets that it leaves alone. -/
theorem Without.cons {p q r : Program α} {d : Deletion} {ds : List Deletion}
    (hone : p.Without [d] q) (hd : d ∉ ds) (hmore : q.Without ds r) : p.Without (d :: ds) r := by
  have hgone : q.gone ds = p.gone ds := by
    refine List.flatMap_congr ?_
    intro e he
    cases e with
    | cone id =>
        have hid : Deletion.cone id ≠ d := fun heq => hd (heq ▸ he)
        simp [coneVariables, hone.cone_eq, hid]
    | constraint con => rfl
  have happend : p.gone (d :: ds) = p.gone [d] ++ p.gone ds := by
    simp [gone]
  constructor
  case cone_eq =>
    intro id
    rw [hmore.cone_eq, hone.cone_eq]
    by_cases hid : Deletion.cone id = d <;> simp [hid, hd]
  case variable_eq =>
    intro v
    rw [hmore.variable_eq, hone.variable_eq, hgone, happend]
    by_cases hv : v ∈ p.gone [d] <;> simp [hv]
  case constraint_eq =>
    intro con
    rw [hmore.constraint_eq, hone.constraint_eq, hgone, happend]
    by_cases hcon : Deletion.constraint con = d
    · simp [hcon, hd, Except.map]
    · have hmap : ((p.findConstraint con).map (·.eraseTerms (p.gone [d]))).map
          (·.eraseTerms (p.gone ds)) =
            (p.findConstraint con).map (·.eraseTerms (p.gone [d] ++ p.gone ds)) := by
        cases p.findConstraint con with
        | ok c => exact congrArg Except.ok (c.eraseTerms_eraseTerms _ _)
        | error e => rfl
      simp [hcon, hmap]
  case next_cone => rw [hmore.next_cone, hone.next_cone]
  case next_variable => rw [hmore.next_variable, hone.next_variable]
  case next_constraint => rw [hmore.next_constraint, hone.next_constraint]
  case session_eq => rw [hmore.session_eq, hone.session_eq]
  case settings_eq => rw [hmore.settings_eq, hone.settings_eq]
  case output_eq => rw [hmore.output_eq, hone.output_eq]

theorem Without.nil (p : Program α) : p.Without [] p where
  cone_eq _ := rfl
  variable_eq _ := rfl
  constraint_eq con := by
    cases hcon : p.findConstraint con <;> simp [gone, Except.map]
  next_cone := rfl
  next_variable := rfl
  next_constraint := rfl
  session_eq := rfl
  settings_eq := rfl
  output_eq := rfl

theorem Coherent.bare {p : Program α} (h : p.Coherent) (hidle : p.session = none)
    (hcones : p.cones.handles = []) (hcons : p.constraints.handles = []) : p.Bare where
  session_eq := hidle
  variableCount_eq := by
    have hlist : p.cones.toList = [] := List.map_eq_nil_iff.1 hcones
    rw [variableCount, ← Store.length_handles, ← h.columnOrder_eq, columnOrder_eq_flatMap, hlist]
    rfl
  coneCount_eq := by rw [coneCount, ← Store.length_handles, hcones, List.length_nil]
  constraintCount_eq := by rw [constraintCount, ← Store.length_handles, hcons, List.length_nil]

theorem Without.bare {p q : Program α} {ds : List Deletion} (hq : q.Coherent)
    (hw : p.Without ds q) (hidle : p.session = none) (hall : ∀ d, p.Holds d → d ∈ ds) :
    q.Bare := by
  refine hq.bare (hw.session_eq.trans hidle) ?_ ?_
  · rw [List.eq_nil_iff_forall_not_mem]
    intro id hid
    obtain ⟨cone, hcone⟩ := Store.mem_handles_iff.1 hid
    have hfind := hw.cone_eq id
    rw [findCone, hcone] at hfind
    split at hfind
    case isTrue => cases hfind
    case isFalse hnot => exact hnot (hall (.cone id) ⟨cone, hfind.symm⟩)
  · rw [List.eq_nil_iff_forall_not_mem]
    intro con hlive
    obtain ⟨c, hcon⟩ := Store.mem_handles_iff.1 hlive
    have hfind := hw.constraint_eq con
    rw [findConstraint, hcon] at hfind
    split at hfind
    case isTrue => cases hfind
    case isFalse hnot =>
      have hlive' : p.Holds (.constraint con) := by
        cases hold : p.findConstraint con with
        | ok old => exact ⟨old, hold⟩
        | error e =>
            rw [hold] at hfind
            cases hfind
      exact hnot (hall _ hlive')

theorem Bare.vacant [Zero α] [BEq α] {p : Program α} (hbare : p.Bare) (h : p.Coherent) :
    p.Vacant := by
  have hnil : ∀ {k : Entity} {β : Type} (s : Store k β), s.size = 0 → s.toList = [] := by
    intro k β s hsize
    rwa [← List.length_eq_zero_iff, Store.length_toList]
  have hcones : p.cones.toList = [] := hnil _ hbare.coneCount_eq
  have hkind : ∀ kind, p.conesOfKind kind = [] := by
    intro kind
    rw [conesOfKind, hcones, List.filter_nil]
  constructor
  case bare => exact hbare
  case kindCount_eq =>
    intro kind
    rw [h.wellFormed.kindCount_eq, hkind, List.length_nil]
  case cones_eq => exact hcones
  case conesOfKind_eq => exact hkind
  case variables_eq => exact hnil _ hbare.variableCount_eq
  case constraints_eq => exact hnil _ hbare.constraintCount_eq
  case checkOut =>
    refine ⟨_, _, h.lends hbare.session_eq, ?_⟩
    rw [Matrices.size, p.rows_exported, h.cols_exported, hbare.constraintCount_eq,
      hbare.variableCount_eq]

end Program

/-! ### Runs of deletions -/

namespace Operation

variable [Zero α] [Add α] [Mul α] [BEq α] {p : Program α}

theorem event_deletion (h : p.Coherent) (hidle : p.session = none) {d : Deletion}
    (hd : p.Holds d) : d.operation.event p = ⟨p, d.operation, .ok .done (p.without d)⟩ := by
  cases d with
  | cone id =>
      obtain ⟨cone, hcone⟩ := hd
      change p.cones.find id = .ok cone at hcone
      rw [Program.without_cone hcone, Deletion.operation, event, perform, run_done,
        ProgramM.run_deleteCone h, hidle, hcone]
      rfl
  | constraint con =>
      obtain ⟨c, hcon⟩ := hd
      change p.constraints.find con = .ok c at hcon
      rw [Program.without_constraint hcon, Deletion.operation, event, perform, run_done,
        ProgramM.run_deleteConstraint, hidle, hcon]
      rfl

/-- Deletions of different targets, all of them live at first, succeed one after the other. -/
theorem performAll_deletions (h : p.Coherent) (hidle : p.session = none) {ds : List Deletion}
    (hnodup : ds.Nodup) (hlive : ∀ d ∈ ds, p.Holds d) :
    performAll p (ds.map Deletion.operation) = ds.foldl Program.without p ∧
      (∀ e ∈ trace p (ds.map Deletion.operation), e.reply = .ok .done) ∧
      p.Without ds (ds.foldl Program.without p) := by
  induction ds generalizing p with
  | nil => exact ⟨rfl, fun e he => absurd he List.not_mem_nil, .nil p⟩
  | cons d ds ih =>
      obtain ⟨hnot, hnodup⟩ := List.nodup_cons.1 hnodup
      have hd := hlive d List.mem_cons_self
      have hevent := event_deletion h hidle hd
      have hone := h.without_one hd
      have hcoherent : (p.without d).Coherent := by
        have hafter : (d.operation.event p).after.Coherent := coherent_performAll h [d.operation]
        rwa [hevent] at hafter
      have hrest : ∀ e ∈ ds, (p.without d).Holds e := by
        intro e he
        have hne : e ≠ d := fun heq => hnot (heq ▸ he)
        exact (p.holds_without_iff hne).2 (hlive e (List.mem_cons_of_mem d he))
      obtain ⟨hrun, hreplies, hwithout⟩ :=
        ih hcoherent (hone.session_eq.trans hidle) hnodup hrest
      rw [List.map_cons, performAll_cons, trace, hevent, List.foldl_cons]
      refine ⟨hrun, ?_, hone.cons hnot hwithout⟩
      intro e he
      rcases List.mem_cons.1 he with rfl | he
      · rfl
      · exact hreplies e he

/-- Deleting different cones and constraints, all of them live, succeeds in any order, and every
order ends in the same program. -/
theorem deletions_commute (id : Nat) (settings : Settings α) (ops : List (Operation α))
    (hidle : (performAll (.empty id settings) ops).session = none) {ds : List Deletion}
    (hnodup : ds.Nodup) (hlive : ∀ d ∈ ds, (performAll (.empty id settings) ops).Holds d) :
    ∃ q : Program α,
      (∀ es : List Deletion, es.Perm ds →
        performAll (performAll (.empty id settings) ops) (es.map Deletion.operation) = q ∧
          ∀ e ∈ trace (performAll (.empty id settings) ops) (es.map Deletion.operation),
            e.reply = .ok .done) ∧
      (performAll (.empty id settings) ops).Without ds q ∧
      ((∀ d, (performAll (.empty id settings) ops).Holds d → d ∈ ds) → q.Vacant) := by
  have h := coherent_of_empty id settings ops
  generalize performAll (.empty id settings) ops = p at h hidle hlive ⊢
  obtain ⟨hrun, -, hwithout⟩ := performAll_deletions h hidle hnodup hlive
  refine ⟨ds.foldl Program.without p, ?_, hwithout, ?_⟩
  · intro es hperm
    obtain ⟨hrun', hreplies, -⟩ := performAll_deletions h hidle (hperm.nodup_iff.2 hnodup)
      fun d hd => hlive d (hperm.mem_iff.1 hd)
    refine ⟨hrun'.trans ?_, hreplies⟩
    exact hperm.foldl_eq' (fun d _ e _ r => r.without_comm d e) p
  · intro hall
    have hcoherent := coherent_performAll h (ds.map Deletion.operation)
    rw [hrun] at hcoherent
    exact (hwithout.bare hcoherent hidle hall).vacant hcoherent

/-- Two cones and a constraint, where each of the cones has terms in that constraint and in another
one, and where a cone was deleted before. -/
theorem deletions_commute_across_terms :
    let p := performAll (.empty 0 ⟨true, 0, false⟩)
      ([.createOrthant, .createConstraint, .createRotated 3, .createSecondOrder 2,
        .createConstraint, .addVariable ⟨0, 0, 0⟩ ⟨0, 0, 0⟩ 2, .addVariable ⟨0, 0, 0⟩ ⟨0, 2, 0⟩ 3,
        .addVariable ⟨0, 1, 0⟩ ⟨0, 3, 0⟩ 5, .addVariable ⟨0, 1, 0⟩ ⟨0, 0, 0⟩ 7,
        .deleteCone ⟨0, 2, 0⟩] : List (Operation Int))
    let ds := [.cone ⟨0, 0, 0⟩, .constraint ⟨0, 0, 0⟩, .cone ⟨0, 1, 0⟩]
    p.session = none ∧ ds.Nodup ∧ (∀ d ∈ ds, p.Holds d) ∧
      ∃ q : Program Int,
        (∀ es : List Deletion, es.Perm ds → performAll p (es.map Deletion.operation) = q ∧
          ∀ e ∈ trace p (es.map Deletion.operation), e.reply = .ok .done) ∧
        p.Without ds q ∧ ((∀ d, p.Holds d → d ∈ ds) → q.Vacant) := by
  intro p ds
  have hidle : p.session = none := by decide +kernel
  have hnodup : ds.Nodup := by decide
  have hlive : ∀ d ∈ ds, p.Holds d := by decide +kernel
  exact ⟨hidle, hnodup, hlive, deletions_commute 0 _ _ hidle hnodup hlive⟩

end Operation

end Socp
