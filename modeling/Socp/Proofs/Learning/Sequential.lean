import Socp.Proofs.Learning.Folding

/-!
Folding an expression is adding its summands in turn, made all or nothing. No law of arithmetic is
needed: for repeated variables the pending coefficients are rounded in the order in which the
additions are. The two differ only where a variable is bad: adding in turn stops halfway.
-/

namespace Socp

namespace Expression

variable {α : Type}

/-! ### The first bad variable -/

/-- A summand over a bad variable, after live ones, and what is wrong with the variable. -/
structure FailsAt (e : Expression α) (p : Program α) (before : List (Summand α)) (t : Summand α)
    (cause : ProgramError) : Prop where
  exists_after : ∃ after, e.summands = before ++ t :: after
  live_before : Over ⟨before⟩ p
  find_eq : p.findVariable t.var = .error cause

/-- Either all variables are live or there is a first bad one, from elsewhere or deleted. -/
theorem over_or_failsAt (e : Expression α) (p : Program α) :
    e.Over p ∨ ∃ before t cause, e.FailsAt p before t cause ∧
      (cause = .foreignHandle .var ∨ cause = .staleHandle .var) := by
  cases hc : e.complaint? p with
  | none =>
      refine .inl fun t ht => Store.complaint?_eq_none_iff.1 ?_
      exact List.findSome?_eq_none_iff.1 hc t ht
  | some cause =>
      obtain ⟨before, t, after, hsplit, hcause, hbefore⟩ := List.findSome?_eq_some_iff.1 hc
      have hbad : p.vars.find t.var = .error cause := Store.complaint?_eq_some_iff.1 hcause
      have hlive : Over ⟨before⟩ p := fun u hu => Store.complaint?_eq_none_iff.1 (hbefore u hu)
      refine .inr ⟨before, t, cause, ⟨⟨after, hsplit⟩, hlive, hbad⟩, ?_⟩
      exact (Store.find_error hbad).imp And.left And.left

theorem FailsAt.complaint?_eq {e : Expression α} {p : Program α} {before : List (Summand α)}
    {t : Summand α} {cause : ProgramError} (h : e.FailsAt p before t cause) :
    e.complaint? p = some cause := by
  obtain ⟨⟨after, hsplit⟩, hlive, hbad⟩ := h
  refine List.findSome?_eq_some_iff.2 ⟨before, t, after, hsplit, ?_, ?_⟩
  · exact Store.complaint?_eq_some_iff.2 hbad
  · exact fun u hu => Store.complaint?_eq_none_iff.2 (hlive u hu)

/-! ### Adding in turn -/

variable [Add α] [Mul α]

/-- Reads the coefficient of a summand's variable and stores the sum at once. -/
def addSummand (scale : α) (t : Summand α) : ProgramM α Unit := do
  let x ← ProgramM.ask (·.findVariable t.var)
  ProgramM.setObjectiveCoefficient t.var (x.objective + scale * t.coefficient)

def addInTurn (e : Expression α) (scale : α) : ProgramM α Unit :=
  e.summands.forM (addSummand scale)

theorem run_addSummand_of_live {p : Program α} (hidle : p.session = none) {t : Summand α}
    {x : Variable α} (hx : p.findVariable t.var = .ok x) (scale : α) :
    (addSummand scale t).run p = .ok ⟨⟩ (p.folded ⟨[t]⟩ scale) := by
  have hlive : p.vars.find t.var = .ok x := hx
  have hadjust : p.vars.adjust t.var (Variable.setObjective (x.objective + scale * t.coefficient)) =
      p.vars.adjust t.var (Variable.addObjective (scale * t.coefficient)) := by
    refine Store.adjust_congr ?_
    intro y hy
    cases hlive.symm.trans hy
    rfl
  rw [addSummand, ProgramM.run_bind, ProgramM.run_ask, hx]
  dsimp only
  rw [ProgramM.run_setObjectiveCoefficient, if_neg (by simp [hidle]), hlive]
  exact congrArg (fun vars => EStateM.Result.ok PUnit.unit { p with vars }) hadjust

theorem run_addSummand_of_error {p : Program α} {t : Summand α} {cause : ProgramError}
    (hbad : p.findVariable t.var = .error cause) (scale : α) :
    (addSummand scale t).run p = .error (.refused cause) p := by
  rw [addSummand, ProgramM.run_bind, ProgramM.run_ask, hbad]

theorem run_addInTurn_append {p : Program α} (hidle : p.session = none)
    {before : List (Summand α)} (hlive : Over ⟨before⟩ p) (rest : List (Summand α)) (scale : α) :
    (addInTurn ⟨before ++ rest⟩ scale).run p =
      (addInTurn ⟨rest⟩ scale).run (p.folded ⟨before⟩ scale) := by
  induction before generalizing p with
  | nil => rfl
  | cons t before ih =>
      obtain ⟨x, hx⟩ := hlive t List.mem_cons_self
      have hbefore : Over ⟨before⟩ p := fun u hu => hlive u (List.mem_cons_of_mem t hu)
      calc (addInTurn ⟨t :: (before ++ rest)⟩ scale).run p
        _ = (addInTurn ⟨before ++ rest⟩ scale).run (p.folded ⟨[t]⟩ scale) := by
            rw [addInTurn, ProgramM.run_forM_cons, run_addSummand_of_live hidle hx]
            rfl
        _ = (addInTurn ⟨rest⟩ scale).run ((p.folded ⟨[t]⟩ scale).folded ⟨before⟩ scale) :=
            ih hidle (hbefore.folded ⟨[t]⟩ scale)

/-- With live variables folding leaves the program that adding in turn leaves. Otherwise both stop
at the first bad variable, folding with nothing changed and the other with what came before. -/
theorem addToObjective_eq_addInTurn {p : Program α} (hidle : p.session = none) (e : Expression α)
    (scale : α) :
    (e.Over p → ∃ q, (e.addInTurn scale).run p = .ok ⟨⟩ q ∧
      (e.addToObjective scale).run p = .ok ⟨⟩ q) ∧
    (∀ before t cause, e.FailsAt p before t cause →
      (e.addToObjective scale).run p = .error (.refused cause) p ∧
      (e.addInTurn scale).run p = .error (.refused cause) (p.folded ⟨before⟩ scale)) ∧
    (e.Over p ∨ ∃ before t cause, e.FailsAt p before t cause ∧
      (cause = .foreignHandle .var ∨ cause = .staleHandle .var)) := by
  refine ⟨?_, ?_, e.over_or_failsAt p⟩
  · intro hlive
    refine ⟨p.folded e scale, ?_, run_addToObjective_of_over hidle hlive scale⟩
    have hrun := run_addInTurn_append hidle hlive [] scale
    rwa [List.append_nil] at hrun
  · intro before t cause hfails
    constructor
    · rw [run_addToObjective, if_neg (by simp [hidle]),
        (complaint?_eq_some_iff scale).1 hfails.complaint?_eq]
    · obtain ⟨⟨after, hsplit⟩, hlive, hbad⟩ := hfails
      -- the additions so far have made no variable live or dead
      have hbad' : (p.folded ⟨before⟩ scale).findVariable t.var = .error cause :=
        Store.find_adjustAll_error.2 hbad
      have hrest : (addInTurn ⟨t :: after⟩ scale).run (p.folded ⟨before⟩ scale) =
          .error (.refused cause) (p.folded ⟨before⟩ scale) := by
        rw [addInTurn, ProgramM.run_forM_cons, run_addSummand_of_error hbad']
      rw [← hrest, ← run_addInTurn_append hidle hlive, ← hsplit]

/-- A sum that repeats its variables, and one that comes to a deleted variable at last. -/
theorem addToObjective_eq_addInTurn_with_repetitions :
    let p := Operation.performAll (.empty 0 ⟨false, 0, true⟩)
      ([.createOrthant, .createSecondOrder 2, .createOrthant,
        .setObjectiveCoefficient ⟨0, 1, 0⟩ 5, .deleteCone ⟨0, 2, 0⟩] : List (Operation Int))
    let e : Expression Int := ⟨[⟨2, ⟨0, 1, 0⟩⟩, ⟨7, ⟨0, 0, 0⟩⟩, ⟨-5, ⟨0, 1, 0⟩⟩]⟩
    let f : Expression Int := ⟨e.summands ++ [⟨1, ⟨0, 3, 0⟩⟩]⟩
    p.session = none ∧ e.Over p ∧ f.FailsAt p e.summands ⟨1, ⟨0, 3, 0⟩⟩ (.staleHandle .var) ∧
      (∃ q, (e.addInTurn 10).run p = .ok ⟨⟩ q ∧ (e.addToObjective 10).run p = .ok ⟨⟩ q) ∧
      (f.addToObjective 10).run p = .error (.refused (.staleHandle .var)) p := by
  intro p e f
  have hidle : p.session = none := by decide +kernel
  have hlive : ∀ t ∈ e.summands, t.var ∈ p.vars.handles := by decide +kernel
  have he : e.Over p := fun t ht => Store.mem_handles_iff.1 (hlive t ht)
  have hf : f.FailsAt p e.summands ⟨1, ⟨0, 3, 0⟩⟩ (.staleHandle .var) := ⟨⟨[], rfl⟩, he, rfl⟩
  refine ⟨hidle, he, hf, (addToObjective_eq_addInTurn hidle e 10).1 he, ?_⟩
  exact ((addToObjective_eq_addInTurn hidle f 10).2.1 _ _ _ hf).1

end Expression

end Socp
