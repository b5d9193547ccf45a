import Mathlib.Algebra.Order.Ring.Abs
import Mathlib.Tactic.Linarith
import Socp.Learning.Loss
import Socp.Proofs.Learning.Folding
import Socp.Proofs.Program.History
import Socp.Proofs.Scalar.Exact

/-!
The loss term of a kernel over exact numbers. For a label 0 or 1 and a value between them, the sign
that the policy gives makes the term the incompatibility up to a constant. So under a positive scale
whatever lowers the folded objective more than the one before moves the atom away from its label,
and under a negative one it moves the atom towards it.
-/

namespace Socp

variable {R : Type} [ExactRing R]

/-! ### Labels -/

namespace GroundTruthPolicy

theorem sign_one (policy : GroundTruthPolicy) : policy.sign (1 : R) = 1 := by
  unfold sign
  rw [if_pos ((ExactRing.beq_iff_eq _ _).2 rfl)]

theorem sign_zero (policy : GroundTruthPolicy) : policy.sign (0 : R) = -1 := by
  have hne : ¬((0 : R) == 1) = true := by
    rw [ExactRing.beq_iff_eq]
    exact zero_ne_one
  unfold sign
  rw [if_neg hne, if_pos ((ExactRing.beq_iff_eq _ _).2 rfl)]

theorem validate_label {t : R} (ht : t = 0 ∨ t = 1) (policy : GroundTruthPolicy) :
    policy.validate t = .ok () := by
  have hrange : ¬(Scalar.isFinite t = false ∨ t < 0 ∨ 1 < t) := by
    rcases ht with rfl | rfl <;> simp [ExactRing.isFinite_eq]
  have hbinary : (t == 0 || t == 1) = true := by
    rwa [Bool.or_eq_true, ExactRing.beq_iff_eq, ExactRing.beq_iff_eq]
  rw [validate, if_neg hrange, if_neg (by simp [hbinary])]

/-- The sign turns a value between the labels into minus its distance from the label, but for a
constant. -/
theorem sign_mul {y t : R} (hy : 0 ≤ y ∧ y ≤ 1) (ht : t = 0 ∨ t = 1) (policy : GroundTruthPolicy) :
    policy.sign t * y = 1 - |y - t| - (1 - t) := by
  rcases ht with rfl | rfl
  · rw [sign_zero, sub_zero, abs_of_nonneg hy.1]
    ring
  · rw [sign_one, abs_of_nonpos (sub_nonpos.2 hy.2)]
    ring

end GroundTruthPolicy

/-! ### Folding at other values -/

def Variable.setPrimal {α : Type} (y : α) (x : Variable α) : Variable α := { x with primal := y }

namespace Program

variable {α : Type}

def withoutPrimals [Zero α] (p : Program α) : Program α :=
  { p with vars := p.vars.mapValues (Variable.setPrimal 0) }

theorem withoutPrimals_setPrimalValue [Zero α] [Add α] [Mul α] [BEq α] (p : Program α)
    (v : VariableId) (y : α) :
    ((Operation.setPrimalValue v y).event p).after.withoutPrimals = p.withoutPrimals := by
  have hvars : (p.vars.adjust v ({ · with primal := y })).mapValues (Variable.setPrimal 0) =
      p.vars.mapValues (Variable.setPrimal 0) := Store.mapValues_adjust fun _ => rfl
  rw [Operation.event, Event.after, Operation.perform, Operation.run_done,
    ProgramM.run_setPrimalValue]
  cases p.session.isSome with
  | true => rfl
  | false =>
      cases p.vars.find v with
      | error cause => rfl
      | ok x => exact congrArg (fun vars => { p with vars }) hvars

theorem withoutPrimals_performAll [Zero α] [Add α] [Mul α] [BEq α] (p : Program α)
    (values : List (VariableId × α)) :
    (Operation.performAll p (values.map fun t => .setPrimalValue t.1 t.2)).withoutPrimals =
      p.withoutPrimals := by
  induction values generalizing p with
  | nil => rfl
  | cons t values ih =>
      rw [List.map_cons, Operation.performAll_cons, ih, p.withoutPrimals_setPrimalValue]

theorem withoutPrimals_folded [Zero α] [Add α] [Mul α] (p : Program α) (e : Expression α)
    (scale : α) : (p.folded e scale).withoutPrimals = p.withoutPrimals.folded e scale := by
  have hcomm : ∀ t ∈ e.increments scale, ∀ x : Variable α,
      (t.2 x).setPrimal 0 = t.2 (x.setPrimal 0) := by
    intro t ht x
    obtain ⟨u, -, rfl⟩ := List.mem_map.1 ht
    rfl
  exact congrArg (fun vars => { p with vars }) (p.vars.mapValues_adjustAll_comm hcomm)

end Program

/-! ### Loss terms -/

namespace LossKernel

theorem create_label {t : R} (ht : t = 0 ∨ t = 1) (atom : Atom R) (policy : GroundTruthPolicy) :
    create atom t policy = .ok ⟨atom, t, policy⟩ := by
  rw [create, policy.validate_label ht]
  rfl

/-- Folded into `p` under the scale, the term of the kernel leaves `q`, where only the objective is
another one and its value has grown with the incompatibility. -/
structure FoldsInto (k : LossKernel R) (p : Program R) (scale : R) (q : Program R) : Prop where
  evaluate_eq : k.definition.evaluate p = .ok (k.incompatibility - (1 - k.truth))
  run_eq : (k.definition.addToObjective scale).run p = .ok ⟨⟩ q
  objective_eq : q.objectiveValue = p.objectiveValue + scale * (k.incompatibility - (1 - k.truth))
  rest_eq : q.withoutObjectives = p.withoutObjectives

theorem foldsInto_folded {p : Program R} (hidle : p.session = none) {v : VariableId}
    {x : Variable R} (hx : p.findVariable v = .ok x) (hvalue : 0 ≤ x.primal ∧ x.primal ≤ 1) {t : R}
    (ht : t = 0 ∨ t = 1) (policy : GroundTruthPolicy) (scale : R) :
    FoldsInto ⟨⟨v, x.primal⟩, t, policy⟩ p scale (p.folded ⟨[⟨policy.sign t, v⟩]⟩ scale) := by
  have hlive : (⟨[⟨policy.sign t, v⟩]⟩ : Expression R).Over p := by
    intro u hu
    obtain rfl := List.mem_singleton.1 hu
    exact ⟨x, hx⟩
  have hfolds := p.folds_folded hidle hlive scale
  have hevaluate : (⟨[⟨policy.sign t, v⟩]⟩ : Expression R).evaluate p =
      .ok (policy.sign t * x.primal) := by
    rw [Expression.evaluate_eq hlive, List.map_singleton, List.sum_singleton, Program.point_eq hx]
  have hterm : policy.sign t * x.primal =
      (⟨⟨v, x.primal⟩, t, policy⟩ : LossKernel R).incompatibility - (1 - t) := by
    rw [policy.sign_mul hvalue ht, incompatibility, ExactRing.abs_eq]
  rw [hterm] at hevaluate
  obtain ⟨value, hvalue', hgrows⟩ := hfolds.grows
  obtain rfl := Except.ok.inj (hvalue'.symm.trans hevaluate)
  exact ⟨hevaluate, hfolds.run, hgrows, hfolds.rest_eq⟩

/-- The objectives that the terms of two kernels leave, against those that they were folded into. -/
structure DrivesAway (k k' : LossKernel R) (p p' : Program R) (scale : R) (q q' : Program R) :
    Prop where
  /-- The term changes as the incompatibility does. -/
  change_eq : (q'.objectiveValue - p'.objectiveValue) - (q.objectiveValue - p.objectiveValue) =
    scale * (k'.incompatibility - k.incompatibility)
  /-- A lower term is an atom farther from the label. -/
  lower_iff : 0 < scale →
    (q'.objectiveValue - p'.objectiveValue < q.objectiveValue - p.objectiveValue ↔
      |k.atom.value - k.truth| < |k'.atom.value - k'.truth|)
  /-- A negative scale reverses the direction. -/
  lower_iff_of_neg : scale < 0 →
    (q'.objectiveValue - p'.objectiveValue < q.objectiveValue - p.objectiveValue ↔
      |k'.atom.value - k'.truth| < |k.atom.value - k.truth|)
  /-- What is best with the term has the atom no nearer to the label than what is best without. -/
  away : 0 < scale → p.objectiveValue ≤ p'.objectiveValue → q'.objectiveValue ≤ q.objectiveValue →
    |k.atom.value - k.truth| ≤ |k'.atom.value - k'.truth|

theorem FoldsInto.drivesAway {k k' : LossKernel R} {p p' q q' : Program R} {scale : R}
    (h : k.FoldsInto p scale q) (h' : k'.FoldsInto p' scale q') (htruth : k'.truth = k.truth) :
    k.DrivesAway k' p p' scale q q' := by
  have hchange : (q'.objectiveValue - p'.objectiveValue) - (q.objectiveValue - p.objectiveValue) =
      scale * (k'.incompatibility - k.incompatibility) := by
    rw [h.objective_eq, h'.objective_eq, htruth]
    ring
  have hfall : (q.objectiveValue - p.objectiveValue) - (q'.objectiveValue - p'.objectiveValue) =
      scale * (|k'.atom.value - k'.truth| - |k.atom.value - k.truth|) := by
    rw [← neg_sub, hchange, incompatibility, incompatibility, ExactRing.abs_eq, ExactRing.abs_eq]
    ring
  constructor
  case change_eq => exact hchange
  case lower_iff =>
    intro hscale
    rw [← sub_pos, hfall, mul_pos_iff_of_pos_left hscale, sub_pos]
  case lower_iff_of_neg =>
    intro hscale
    rw [← sub_pos, hfall, ← neg_mul_neg, mul_pos_iff_of_pos_left (neg_pos.2 hscale), neg_sub,
      sub_pos]
  case away =>
    intro hscale hp hq
    have hterm : 0 ≤ scale * (|k'.atom.value - k'.truth| - |k.atom.value - k.truth|) := by
      rw [← hfall]
      linarith
    rw [mul_nonneg_iff_of_pos_left hscale] at hterm
    exact sub_nonneg.1 hterm

/-- The kernel of an atom between the labels is constructed under every policy, and its term adds a
multiple of the incompatibility to the objective, up to a constant. When the values of the variables
are other ones, the term follows the incompatibility, so that under a positive scale minimising the
objective drives the atom away from its label. -/
theorem exists_foldsInto_drivesAway {p : Program R} (hidle : p.session = none) {v : VariableId}
    {x : Variable R} (hx : p.findVariable v = .ok x) (hvalue : 0 ≤ x.primal ∧ x.primal ≤ 1) {t : R}
    (ht : t = 0 ∨ t = 1) (policy : GroundTruthPolicy) (scale : R) :
    ∃ k q, create ⟨v, x.primal⟩ t policy = .ok k ∧ k.FoldsInto p scale q ∧
      ∀ p' x', p'.withoutPrimals = p.withoutPrimals → p'.findVariable v = .ok x' →
        0 ≤ x'.primal ∧ x'.primal ≤ 1 →
        ∃ k' q', create ⟨v, x'.primal⟩ t policy = .ok k' ∧ k'.FoldsInto p' scale q' ∧
          q'.withoutPrimals = q.withoutPrimals ∧ k.DrivesAway k' p p' scale q q' := by
  have hfolds := foldsInto_folded hidle hx hvalue ht policy scale
  refine ⟨_, _, create_label ht _ policy, hfolds, ?_⟩
  intro p' x' hsame hx' hvalue'
  have hidle' : p'.session = none := (congrArg Program.session hsame).trans hidle
  have hfolds' := foldsInto_folded hidle' hx' hvalue' ht policy scale
  refine ⟨_, _, create_label ht _ policy, hfolds', ?_, hfolds.drivesAway hfolds' rfl⟩
  rw [Program.withoutPrimals_folded, Program.withoutPrimals_folded, hsame]

section

open scoped ExactRing

/-- The label is 0. The objective asks for a small value, but less than the term asks for a large
one. -/
theorem exists_foldsInto_drivesAway_of_zero :
    let p := Operation.performAll (.empty 0 ⟨false, 0, true⟩)
      ([.createOrthant, .createSecondOrder 2, .setObjectiveCoefficient ⟨0, 0, 0⟩ 1,
        .setPrimalValue ⟨0, 0, 0⟩ (1 / 4)] : List (Operation ℚ))
    let p' := Operation.performAll p
      ([(⟨0, 0, 0⟩, 3 / 4), (⟨0, 2, 0⟩, -2)].map fun t => .setPrimalValue t.1 t.2)
    let cone : ConeId := ⟨0, 0, 0⟩
    p.session = none ∧ p'.withoutPrimals = p.withoutPrimals ∧
      p.findVariable ⟨0, 0, 0⟩ = .ok ⟨1 / 4, 0, 1, cone⟩ ∧
      p'.findVariable ⟨0, 0, 0⟩ = .ok ⟨3 / 4, 0, 1, cone⟩ ∧
      ∃ k q k' q', create ⟨⟨0, 0, 0⟩, 1 / 4⟩ 0 .threshold = .ok k ∧ k.FoldsInto p 2 q ∧
        create ⟨⟨0, 0, 0⟩, 3 / 4⟩ 0 .threshold = .ok k' ∧ k'.FoldsInto p' 2 q' ∧
        q'.withoutPrimals = q.withoutPrimals ∧ k.DrivesAway k' p p' 2 q q' := by
  intro p p' cone
  have hidle : p.session = none := by decide +kernel
  have hsame : p'.withoutPrimals = p.withoutPrimals := p.withoutPrimals_performAll _
  have hx : p.findVariable ⟨0, 0, 0⟩ = .ok ⟨1 / 4, 0, 1, cone⟩ := rfl
  have hx' : p'.findVariable ⟨0, 0, 0⟩ = .ok ⟨3 / 4, 0, 1, cone⟩ := rfl
  obtain ⟨k, q, hk, hfolds, hother⟩ :=
    exists_foldsInto_drivesAway hidle hx (by norm_num) (.inl rfl) .threshold 2
  obtain ⟨k', q', hk', hfolds', hfolded, hdrives⟩ := hother p' _ hsame hx' (by norm_num)
  exact ⟨hidle, hsame, hx, hx', k, q, k', q', hk, hfolds, hk', hfolds', hfolded, hdrives⟩

/-- Under the scale -1 a lower objective has the atom nearer to its label. -/
theorem foldsInto_nearer_of_neg :
    let p := Operation.performAll (.empty 0 ⟨false, 0, true⟩)
      ([.createOrthant, .setPrimalValue ⟨0, 0, 0⟩ (3 / 4)] : List (Operation ℚ))
    let p' := Operation.performAll p [.setPrimalValue ⟨0, 0, 0⟩ (1 / 4)]
    p.session = none ∧ p'.withoutPrimals = p.withoutPrimals ∧
      ∃ k q k' q', create ⟨⟨0, 0, 0⟩, 3 / 4⟩ 0 .threshold = .ok k ∧ k.FoldsInto p (-1) q ∧
        create ⟨⟨0, 0, 0⟩, 1 / 4⟩ 0 .threshold = .ok k' ∧ k'.FoldsInto p' (-1) q' ∧
        p.objectiveValue = 0 ∧ p'.objectiveValue = 0 ∧ q'.objectiveValue < q.objectiveValue ∧
        |k'.atom.value - k'.truth| < |k.atom.value - k.truth| := by
  intro p p'
  have hidle : p.session = none := by decide +kernel
  have hsame : p'.withoutPrimals = p.withoutPrimals := p.withoutPrimals_performAll [(_, _)]
  have hx : p.findVariable ⟨0, 0, 0⟩ = .ok ⟨3 / 4, 0, 0, ⟨0, 0, 0⟩⟩ := rfl
  have hx' : p'.findVariable ⟨0, 0, 0⟩ = .ok ⟨1 / 4, 0, 0, ⟨0, 0, 0⟩⟩ := rfl
  have hfolds := foldsInto_folded hidle hx (by norm_num) (.inl rfl) .threshold (-1)
  have hfolds' := foldsInto_folded (p := p') hidle hx' (by norm_num) (.inl rfl) .threshold (-1)
  have hvalue : p.objectiveValue = 0 := by decide +kernel
  have hvalue' : p'.objectiveValue = 0 := by decide +kernel
  refine ⟨hidle, hsame, _, _, _, _, create_label (.inl rfl) _ _, hfolds,
    create_label (.inl rfl) _ _, hfolds', hvalue, hvalue', ?_, ?_⟩
  · rw [hfolds.objective_eq, hfolds'.objective_eq, hvalue, hvalue']
    simp only [incompatibility, ExactRing.abs_eq]
    norm_num [abs_of_pos]
  · norm_num [abs_of_pos]

end

end LossKernel

end Socp
