import Mathlib.Algebra.Ring.Int.Defs
import Mathlib.Tactic.Ring
import Socp.Proofs.Dense
import Socp.Proofs.Program.Reachable
import Socp.Proofs.Program.Values
import Socp.Proofs.Store.Commutation

/-!
Folding expressions into the objective. The pending coefficients of repeated variables come to the
same as adding the summands one by one, in any arithmetic; over exact numbers this makes folding
linear.
-/

namespace Socp

variable {α : Type}

namespace Variable

def setObjective (c : α) (x : Variable α) : Variable α := { x with objective := c }

def addObjective [Add α] (d : α) (x : Variable α) : Variable α :=
  { x with objective := x.objective + d }

theorem addObjective_comm [AddCommSemigroup α] (d d' : α) (x : Variable α) :
    (x.addObjective d').addObjective d = (x.addObjective d).addObjective d' := by
  simp only [addObjective, add_right_comm]

end Variable

namespace Expression

variable [Add α] [Mul α]

/-- One addition to an objective coefficient for each summand. -/
def increments (e : Expression α) (scale : α) : List (VariableId × (Variable α → Variable α)) :=
  e.summands.map fun t => (t.var, Variable.addObjective (scale * t.coefficient))

end Expression

namespace Program

/-- The program with the increments of an expression in its objective. -/
def folded [Add α] [Mul α] (p : Program α) (e : Expression α) (scale : α) : Program α :=
  { p with vars := p.vars.adjustAll (e.increments scale) }

def withoutObjectives [Zero α] (p : Program α) : Program α :=
  { p with vars := p.vars.mapValues (Variable.setObjective 0) }

end Program

/-! ### Pending coefficients -/

namespace Expression

def Over (e : Expression α) (p : Program α) : Prop :=
  ∀ t ∈ e.summands, ∃ x, p.findVariable t.var = .ok x

/-- Coefficients that wait to be stored, the latest first. -/
def stores (pending : List (VariableId × α)) : List (VariableId × (Variable α → Variable α)) :=
  pending.reverse.map fun t => (t.1, Variable.setObjective t.2)

theorem stores_cons (t : VariableId × α) (pending : List (VariableId × α)) :
    stores (t :: pending) = stores pending ++ [(t.1, Variable.setObjective t.2)] := by
  simp [stores]

/-- Of several pending coefficients of a variable the latest counts. -/
theorem find_stores (s : Store .var (Variable α)) (pending : List (VariableId × α))
    (v : VariableId) :
    (s.adjustAll (stores pending)).find v =
      match pending.lookup v with
      | some c => (s.find v).map (Variable.setObjective c)
      | none => s.find v := by
  induction pending generalizing v with
  | nil => rfl
  | cons t pending ih =>
      have hset : ((s.adjustAll (stores pending)).find t.1).map (Variable.setObjective t.2) =
          (s.find t.1).map (Variable.setObjective t.2) := by
        rw [ih]
        split
        · cases s.find t.1 <;> rfl
        · rfl
      rw [stores_cons, Store.adjustAll_append, Store.adjustAll_cons, Store.adjustAll_nil,
        Store.find_adjust, Terms.lookup_cons]
      by_cases hv : v = t.1
      · rw [if_pos hv, if_pos hv, hset, hv]
      · rw [if_neg hv, if_neg hv, ih]

variable [Add α] [Mul α]

theorem objective_of_pend {p : Program α} {scale : α} {pending pending' : List (VariableId × α)}
    {t : Summand α} (hp : pend p scale pending t = .ok pending') :
    ∃ current, pending' = (t.var, current + scale * t.coefficient) :: pending ∧
      ∀ x, (p.vars.adjustAll (stores pending)).find t.var = .ok x → x.objective = current := by
  rw [pend] at hp
  cases hlook : pending.lookup t.var with
  | some c =>
      rw [hlook] at hp
      cases hp
      refine ⟨c, rfl, ?_⟩
      intro x hx
      rw [find_stores, hlook] at hx
      dsimp only at hx
      cases hfind : p.vars.find t.var with
      | error e =>
          rw [hfind] at hx
          cases hx
      | ok y =>
          rw [hfind] at hx
          cases hx
          rfl
  | none =>
      rw [hlook] at hp
      cases hfind : p.vars.find t.var with
      | error e =>
          rw [Program.findVariable, hfind] at hp
          cases hp
      | ok y =>
          rw [Program.findVariable, hfind] at hp
          cases hp
          refine ⟨y.objective, rfl, ?_⟩
          intro x hx
          rw [find_stores, hlook, hfind] at hx
          cases hx
          rfl

/-- Storing the pending coefficients adds each summand once, whatever was pending before it. -/
theorem adjustAll_stores {e : Expression α} {p : Program α} {scale : α}
    {pending : List (VariableId × α)} (hp : e.pendingObjective p scale = .ok pending) :
    p.vars.adjustAll (stores pending) = p.vars.adjustAll (e.increments scale) := by
  obtain ⟨summands⟩ := e
  change summands.foldlM (pend p scale) [] = .ok pending at hp
  induction summands using List.reverseRecOn generalizing pending with
  | nil =>
      cases hp
      rfl
  | append_singleton summands t ih =>
      rw [List.foldlM_append] at hp
      cases hmid : summands.foldlM (pend p scale) [] with
      | error cause =>
          rw [hmid] at hp
          cases hp
      | ok mid =>
          have hstep : pend p scale mid t = .ok pending := by
            rw [hmid] at hp
            change (pend p scale mid t >>= pure) = .ok pending at hp
            rwa [bind_pure] at hp
          obtain ⟨current, rfl, hcurrent⟩ := objective_of_pend hstep
          have hincrements : (⟨summands ++ [t]⟩ : Expression α).increments scale =
              (⟨summands⟩ : Expression α).increments scale ++
                [(t.var, Variable.addObjective (scale * t.coefficient))] := by
            simp [increments]
          rw [stores_cons, hincrements, Store.adjustAll_append, Store.adjustAll_append, ← ih hmid]
          refine Store.adjust_congr ?_
          intro x hx
          rw [← hcurrent x hx]
          rfl

theorem run_addToObjective_of_over {e : Expression α} {p : Program α} (hidle : p.session = none)
    (hlive : e.Over p) (scale : α) :
    (e.addToObjective scale).run p = .ok ⟨⟩ (p.folded e scale) := by
  cases hp : e.pendingObjective p scale with
  | error cause =>
      rw [← complaint?_eq_some_iff] at hp
      obtain ⟨t, ht, hcause⟩ := List.exists_of_findSome?_eq_some hp
      obtain ⟨x, hx⟩ := hlive t ht
      rw [Store.complaint?_eq_some_iff] at hcause
      exact absurd (hx.symm.trans hcause) nofun
  | ok pending =>
      rw [run_addToObjective, if_neg (by simp [hidle]), hp, Program.folded, ← adjustAll_stores hp]
      rfl

end Expression

/-! ### What folding leaves alone -/

namespace Program

theorem withoutObjectives_folded [Zero α] [Add α] [Mul α] (p : Program α) (e : Expression α)
    (scale : α) : (p.folded e scale).withoutObjectives = p.withoutObjectives := by
  have hvars : (p.vars.adjustAll (e.increments scale)).mapValues (Variable.setObjective 0) =
      p.vars.mapValues (Variable.setObjective 0) := by
    refine Store.mapValues_adjustAll ?_
    intro t ht x
    obtain ⟨_, -, rfl⟩ := List.mem_map.1 ht
    rfl
  rw [withoutObjectives, folded, hvars]
  rfl

theorem map_primal_congr [Zero α] {p q : Program α}
    (h : q.withoutObjectives = p.withoutObjectives) (v : VariableId) :
    (q.findVariable v).map Variable.primal = (p.findVariable v).map Variable.primal := by
  have hfind := congrArg (fun r : Program α => (r.vars.find v).map Variable.primal) h
  simp only [withoutObjectives, Store.find_mapValues] at hfind
  have hcomp : ∀ found : Except ProgramError (Variable α),
      (found.map (Variable.setObjective 0)).map Variable.primal = found.map Variable.primal := by
    intro found
    cases found <;> rfl
  rwa [hcomp, hcomp] at hfind

theorem point_congr [Zero α] {p q : Program α} (h : q.withoutObjectives = p.withoutObjectives)
    (v : VariableId) : q.point v = p.point v := by
  have hprimal := map_primal_congr h v
  rw [point, point]
  cases hq : q.findVariable v <;> cases hp : p.findVariable v <;>
    simp_all [Except.map]

end Program

namespace Expression

theorem evaluate_congr [Zero α] [Add α] [Mul α] {p q : Program α}
    (h : q.withoutObjectives = p.withoutObjectives) (e : Expression α) :
    e.evaluate q = e.evaluate p := by
  have hstep : ∀ (total : α) (t : Summand α),
      (do return total + t.coefficient * (← q.findVariable t.var).primal : Except ProgramError α) =
        do return total + t.coefficient * (← p.findVariable t.var).primal := by
    intro total t
    have hprimal := Program.map_primal_congr h t.var
    cases hq : q.findVariable t.var <;> cases hp : p.findVariable t.var <;>
      simp_all [Except.map, bind, Except.bind, pure, Except.pure]
  simp only [evaluate, hstep]

theorem Over.folded [Add α] [Mul α] {e : Expression α} {p : Program α} (he : e.Over p)
    (f : Expression α) (scale : α) : e.Over (p.folded f scale) := by
  intro t ht
  have hlive : t.var ∈ (p.vars.adjustAll (f.increments scale)).handles := by
    rw [Store.handles_adjustAll]
    exact Store.mem_handles_iff.2 (he t ht)
  exact Store.mem_handles_iff.1 hlive

end Expression

/-! ### Folding over exact numbers -/

section

variable [CommRing α]

theorem Expression.evaluate_eq {e : Expression α} {p : Program α} (he : e.Over p) :
    e.evaluate p = .ok (e.summands.map fun t => t.coefficient * p.point t.var).sum := by
  rw [List.sum_eq_foldl]
  exact Program.foldlM_point Summand.coefficient Summand.var he 0

namespace Program

theorem objectiveValue_eq (p : Program α) :
    p.objectiveValue = (p.vars.toList.map fun e => e.2.objective * e.2.primal).sum := by
  rw [objectiveValue, Dense.pairwiseSum_eq_sum, Store.values, List.map_map]
  rfl

theorem objectiveValue_adjust {p : Program α} {v : VariableId} {x : Variable α}
    (hx : p.vars.find v = .ok x) (d : α) :
    { p with vars := p.vars.adjust v (Variable.addObjective d) }.objectiveValue =
      p.objectiveValue + d * x.primal := by
  obtain ⟨before, after, hl, hl'⟩ := Store.exists_toList_adjust hx (Variable.addObjective d)
  rw [objectiveValue_eq, objectiveValue_eq, hl, hl']
  simp only [List.map_append, List.map_cons, List.sum_append, List.sum_cons,
    Variable.addObjective]
  ring

theorem objectiveValue_folded {p : Program α} {e : Expression α} (he : e.Over p) (scale : α) :
    (p.folded e scale).objectiveValue =
      p.objectiveValue + scale * (e.summands.map fun t => t.coefficient * p.point t.var).sum := by
  obtain ⟨summands⟩ := e
  induction summands generalizing p with
  | nil => simp [folded, Expression.increments]
  | cons t summands ih =>
      obtain ⟨x, hx⟩ := he t List.mem_cons_self
      have hrest : (⟨summands⟩ : Expression α).Over p := fun u hu =>
        he u (List.mem_cons_of_mem t hu)
      have hfirst : (p.folded ⟨[t]⟩ scale).objectiveValue =
          p.objectiveValue + scale * t.coefficient * x.primal :=
        objectiveValue_adjust hx (scale * t.coefficient)
      have hpoint : ∀ v, (p.folded ⟨[t]⟩ scale).point v = p.point v :=
        point_congr (p.withoutObjectives_folded ⟨[t]⟩ scale)
      calc (p.folded ⟨t :: summands⟩ scale).objectiveValue
        _ = ((p.folded ⟨[t]⟩ scale).folded ⟨summands⟩ scale).objectiveValue := rfl
        _ = p.objectiveValue + scale * t.coefficient * x.primal +
              scale * (summands.map fun u => u.coefficient * p.point u.var).sum := by
            rw [ih (hrest.folded ⟨[t]⟩ scale), hfirst]
            simp only [hpoint]
        _ = p.objectiveValue +
              scale * ((t :: summands).map fun u => u.coefficient * p.point u.var).sum := by
            rw [List.map_cons, List.sum_cons, point_eq hx]
            ring

theorem folded_comm (p : Program α) (e f : Expression α) (scale scale' : α) :
    (p.folded e scale).folded f scale' = (p.folded f scale').folded e scale := by
  have hadds : ∀ t ∈ e.increments scale ++ f.increments scale',
      ∃ d, t.2 = Variable.addObjective d := by
    intro t ht
    rcases List.mem_append.1 ht with ht | ht
    · obtain ⟨u, -, rfl⟩ := List.mem_map.1 ht
      exact ⟨scale * u.coefficient, rfl⟩
    · obtain ⟨u, -, rfl⟩ := List.mem_map.1 ht
      exact ⟨scale' * u.coefficient, rfl⟩
  have hvars : p.vars.adjustAll (e.increments scale ++ f.increments scale') =
      p.vars.adjustAll (f.increments scale' ++ e.increments scale) := by
    refine p.vars.adjustAll_perm List.perm_append_comm ?_
    intro t ht u hu x
    obtain ⟨d, hd⟩ := hadds t ht
    obtain ⟨d', hd'⟩ := hadds u hu
    rw [hd, hd', x.addObjective_comm]
  rw [Store.adjustAll_append, Store.adjustAll_append] at hvars
  simp only [folded, hvars]

theorem folded_append (p : Program α) (e f : Expression α) (scale : α) :
    p.folded ⟨e.summands ++ f.summands⟩ scale = (p.folded e scale).folded f scale := by
  simp only [folded, Expression.increments, List.map_append, Store.adjustAll_append]

/-- `q` is `p` after a multiple of the expression was added to the objective, and the objective
has grown by that multiple of the value. -/
structure Folds (p : Program α) (e : Expression α) (scale : α) (q : Program α) : Prop where
  run : (e.addToObjective scale).run p = .ok ⟨⟩ q
  grows : ∃ value, e.evaluate p = .ok value ∧ q.objectiveValue = p.objectiveValue + scale * value
  evaluate_eq : ∀ f : Expression α, f.evaluate q = f.evaluate p
  rest_eq : q.withoutObjectives = p.withoutObjectives

theorem folds_folded {p : Program α} (hidle : p.session = none) {e : Expression α} (he : e.Over p)
    (scale : α) : p.Folds e scale (p.folded e scale) where
  run := Expression.run_addToObjective_of_over hidle he scale
  grows := ⟨_, Expression.evaluate_eq he, objectiveValue_folded he scale⟩
  evaluate_eq f := f.evaluate_congr (p.withoutObjectives_folded e scale)
  rest_eq := p.withoutObjectives_folded e scale

end Program

/-- Folding is linear: each expression adds its multiple to the objective and nothing else, two of
them come to the same in either order, and under one scale also as one sum. -/
theorem Expression.addToObjective_linear {p : Program α} (hidle : p.session = none)
    {e f : Expression α} (he : e.Over p) (hf : f.Over p) (scale scale' : α) :
    ∃ q q' r, p.Folds e scale q ∧ q.Folds f scale' r ∧ p.Folds f scale' q' ∧ q'.Folds e scale r ∧
      (scale' = scale → p.Folds ⟨e.summands ++ f.summands⟩ scale r) := by
  have hthen : (p.folded e scale).Folds f scale' ((p.folded e scale).folded f scale') :=
    Program.folds_folded (p := p.folded e scale) hidle (hf.folded e scale) scale'
  have hthen' : (p.folded f scale').Folds e scale ((p.folded f scale').folded e scale) :=
    Program.folds_folded (p := p.folded f scale') hidle (he.folded f scale') scale
  rw [← p.folded_comm] at hthen'
  refine ⟨_, _, _, Program.folds_folded hidle he scale, hthen,
    Program.folds_folded hidle hf scale', hthen', ?_⟩
  rintro rfl
  have hboth : (⟨e.summands ++ f.summands⟩ : Expression α).Over p :=
    List.forall_mem_append.2 ⟨he, hf⟩
  rw [← p.folded_append]
  exact Program.folds_folded hidle hboth scale'

/-- Sums that repeat variables, within each and between them. -/
theorem Expression.addToObjective_linear_with_repetitions :
    let p := Operation.performAll (.empty 0 ⟨false, 0, true⟩)
      ([.createOrthant, .createSecondOrder 2, .setPrimalValue ⟨0, 0, 0⟩ 3,
        .setPrimalValue ⟨0, 1, 0⟩ (-2),
        .setObjectiveCoefficient ⟨0, 0, 0⟩ 5] : List (Operation Int))
    let e : Expression Int := ⟨[⟨2, ⟨0, 0, 0⟩⟩, ⟨7, ⟨0, 1, 0⟩⟩, ⟨-5, ⟨0, 0, 0⟩⟩]⟩
    let f : Expression Int := ⟨[⟨4, ⟨0, 1, 0⟩⟩, ⟨4, ⟨0, 1, 0⟩⟩, ⟨1, ⟨0, 0, 0⟩⟩]⟩
    p.session = none ∧ e.Over p ∧ f.Over p ∧
      ∃ q q' r, p.Folds e 10 q ∧ q.Folds f 10 r ∧ p.Folds f 10 q' ∧ q'.Folds e 10 r ∧
        p.Folds ⟨e.summands ++ f.summands⟩ 10 r := by
  intro p e f
  have hidle : p.session = none := by decide +kernel
  have hlive : ∀ t ∈ e.summands ++ f.summands, t.var ∈ p.vars.handles := by decide +kernel
  rw [List.forall_mem_append] at hlive
  have he : e.Over p := fun t ht => Store.mem_handles_iff.1 (hlive.1 t ht)
  have hf : f.Over p := fun t ht => Store.mem_handles_iff.1 (hlive.2 t ht)
  obtain ⟨q, q', r, hfirst, hthen, hfirst', hthen', hboth⟩ :=
    addToObjective_linear hidle he hf 10 10
  exact ⟨hidle, he, hf, q, q', r, hfirst, hthen, hfirst', hthen', hboth rfl⟩

end

end Socp
