import Mathlib.Algebra.Ring.Int.Defs
import Socp.Proofs.Program.Deletion

/-!
Matrices depend on the live graph alone. Programs that hold the same graph lend the same matrices,
whatever their pasts; in particular a program from which everything has been deleted takes up a
graph again as a new program does.
-/

namespace Socp

variable {α : Type}

/-! ### Deleting everything -/

def Program.teardown (p : Program α) : List (Operation α) :=
  p.cones.handles.map .deleteCone ++ p.constraints.handles.map .deleteConstraint

theorem Operation.bare_teardown [Zero α] [Add α] [Mul α] [BEq α] {p : Program α} (h : p.Coherent)
    (hidle : p.session = none) : (performAll p p.teardown).Bare := by
  let ds := p.cones.handles.map Deletion.cone ++ p.constraints.handles.map Deletion.constraint
  have hall : ∀ d, d ∈ ds ↔ p.Holds d := by
    intro d
    cases d <;> simp [ds, Program.Holds, Program.findCone, Program.findConstraint,
      Store.mem_handles_iff]
  have hnodup : ds.Nodup := by
    refine List.Nodup.append ?_ ?_ ?_
    · exact p.cones.handles_nodup.map fun _ _ => Deletion.cone.inj
    · exact p.constraints.handles_nodup.map fun _ _ => Deletion.constraint.inj
    · simp [List.Disjoint]
  have hoperations : ds.map Deletion.operation = p.teardown := by
    simp [ds, Program.teardown, Function.comp_def, Deletion.operation]
  obtain ⟨hrun, -, hwithout⟩ := performAll_deletions h hidle hnodup fun d hd => (hall d).1 hd
  have hcoherent := coherent_performAll h p.teardown
  rw [← hoperations, hrun] at hcoherent ⊢
  exact hwithout.bare hcoherent hidle fun d hd => (hall d).2 hd

/-! ### Starting again -/

namespace Program

/-- How the handles of a new program with the number `n` are carried over to `p`, which goes on
counting from the entities that it has had. -/
def restart (p : Program α) (n : Nat) : Relocation := ⟨n, p.number, p.slotCount⟩

theorem Bare.relocated {p : Program α} (hp : p.Bare) (h : p.Coherent) (n : Nat) :
    (empty n p.settings).Relocated (p.restart n) p where
  vars := .of_empty _ rfl (Store.handles_eq_nil_of_size hp.variableCount_eq) (Nat.zero_add _).symm
  cones := .of_empty _ h.cones_program (Store.handles_eq_nil_of_size hp.coneCount_eq)
    (Nat.zero_add _).symm
  constraints := .of_empty _ h.constraints_program
    (Store.handles_eq_nil_of_size hp.constraintCount_eq) (Nat.zero_add _).symm
  session_eq := hp.session_eq
  settings_eq := rfl

/-- A program takes up any graph as a new program with its settings does: whatever is done to both,
all calls end alike, and at the end both hold the same and lend the same matrices. -/
structure StartsAgain [Zero α] [Add α] [Mul α] [BEq α] (p : Program α) : Prop where
  replies_eq : ∀ n (build : List (Operation α)),
    (Operation.trace p (build.map (.relocate (p.restart n)))).map Event.reply =
      (Operation.trace (.empty n p.settings) build).map fun e =>
        e.reply.map (Answer.relocate (p.restart n))
  relocated : ∀ n (build : List (Operation α)),
    (Operation.performAll (.empty n p.settings) build).Relocated (p.restart n)
      (Operation.performAll p (build.map (.relocate (p.restart n))))
  lends_iff : ∀ n (build : List (Operation α)) M,
    (∃ q, (Operation.performAll (.empty n p.settings) build).Lends q M) ↔
      ∃ q, (Operation.performAll p (build.map (.relocate (p.restart n)))).Lends q M

theorem Bare.startsAgain [Zero α] [Add α] [Mul α] [BEq α] {p : Program α} (hp : p.Bare)
    (h : p.Coherent) : p.StartsAgain := by
  have hrun := fun n => Operation.relocated_performAll (hp.relocated h n)
    (coherent_empty n p.settings) h
  constructor
  case replies_eq => exact fun n build => (hrun n build).2
  case relocated => exact fun n build => (hrun n build).1
  case lends_iff =>
    intro n build M
    have hnew := Operation.coherent_of_empty n p.settings build
    have hagain := Operation.coherent_performAll h (build.map (.relocate (p.restart n)))
    have hrelocated := (hrun n build).1
    rw [hnew.exists_lends_iff, hagain.exists_lends_iff, hrelocated.session_eq,
      Option.map_eq_none_iff, hrelocated.alike.exported_eq hnew hagain]

end Program

/-- The choice that brings about these settings, whatever they were before. -/
def Settings.choice (s : Settings α) : SettingsChoice α :=
  ⟨some s.verbose, some s.feasibilityTol, some s.dropZeros⟩

/-- Reachable programs that hold the same graph lend the same matrices. From each of them everything
can be deleted; however that has come about, the program starts again like a new one, and doing all
over again what was done to it brings its matrices back. -/
theorem Operation.lends_of_live_graph [Zero α] [Add α] [Mul α] [BEq α] (id id' : Nat)
    (settings settings' : Settings α) (ops ops' : List (Operation α))
    (hidle : (performAll (.empty id settings) ops).session = none)
    (hidle' : (performAll (.empty id' settings') ops').session = none) :
    let p := performAll (.empty id settings) ops
    let p' := performAll (.empty id' settings') ops'
    (p.Alike p' → ∃ q q' M, p.Lends q M ∧ p'.Lends q' M) ∧ (performAll p p.teardown).Bare ∧
      ∀ more, (performAll p more).Bare → (performAll p more).StartsAgain ∧
        ∃ q q' M, p.Lends q M ∧
          (performAll (performAll p more) ((.chooseSettings settings.choice :: ops).map
            (.relocate ((performAll p more).restart id)))).Lends q' M := by
  intro p p'
  have h : p.Coherent := coherent_of_empty id settings ops
  have h' : p'.Coherent := coherent_of_empty id' settings' ops'
  refine ⟨?_, bare_teardown h hidle, ?_⟩
  · intro halike
    refine ⟨p.lent, p'.lent, p.exported, h.lends hidle, ?_⟩
    rw [halike.exported_eq h h']
    exact h'.lends hidle'
  · intro more hbare
    have hagain := hbare.startsAgain (coherent_performAll h more)
    refine ⟨hagain, ?_⟩
    obtain ⟨q', hq'⟩ := (hagain.lends_iff id (.chooseSettings settings.choice :: ops)
      p.exported).1 ⟨_, h.lends hidle⟩
    exact ⟨_, q', _, h.lends hidle, hq'⟩

/-- A cone and a constraint have gone from the second program before it comes to the graph of the
first, which then goes and comes back. -/
theorem Operation.lends_of_live_graph_twice :
    let ops : List (Operation Int) := [.createSecondOrder 2, .createConstraint,
      .addVariable ⟨0, 0, 0⟩ ⟨0, 1, 0⟩ 5, .setPrimalValue ⟨0, 0, 0⟩ 3]
    let ops' : List (Operation Int) := [.createOrthant, .createConstraint, .createSecondOrder 2,
      .createConstraint, .addVariable ⟨7, 0, 0⟩ ⟨7, 0, 0⟩ 2, .addVariable ⟨7, 1, 0⟩ ⟨7, 0, 0⟩ 4,
      .deleteCone ⟨7, 0, 0⟩, .deleteConstraint ⟨7, 0, 0⟩, .addVariable ⟨7, 1, 0⟩ ⟨7, 2, 0⟩ 5,
      .checkOut, .checkIn, .setPrimalValue ⟨7, 1, 0⟩ 3]
    let p := performAll (.empty 0 ⟨false, 0, true⟩) ops
    let p' := performAll (.empty 7 ⟨false, 0, false⟩) ops'
    p.session = none ∧ p'.session = none ∧ p.Alike p' ∧
      (∃ q q' M, p.Lends q M ∧ p'.Lends q' M) ∧ (performAll p p.teardown).Bare ∧
      ∃ q q' M, p.Lends q M ∧
        (performAll (performAll p p.teardown)
          ((.chooseSettings (Settings.choice ⟨false, 0, true⟩) :: ops).map
            (.relocate ((performAll p p.teardown).restart 0)))).Lends q' M := by
  intro ops ops' p p'
  have hidle : p.session = none := by decide +kernel
  have hidle' : p'.session = none := by decide +kernel
  have halike : p.Alike p' := ⟨by decide +kernel, by decide +kernel, by decide +kernel⟩
  obtain ⟨hlends, hbare, hagain⟩ :=
    lends_of_live_graph 0 7 ⟨false, 0, true⟩ ⟨false, 0, false⟩ ops ops' hidle hidle'
  refine ⟨hidle, hidle', halike, hlends halike, hbare, ?_⟩
  exact (hagain p.teardown hbare).2

end Socp
