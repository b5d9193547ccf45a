import Socp.Question
import Socp.Proofs.Program.Checkout
import Socp.Proofs.Program.History
import Socp.Proofs.Scalar.Extended

/-!
While the matrices are lent the graph stands still. Whatever is done short of taking the matrices
back, the graph answers every question as it did right after the check-out, and the indices of the
session stay those of the live entities.
-/

namespace Socp

variable {α : Type}

/-! ### Programs with the same graph -/

namespace Program

/-- The cones, the variables and the constraints are the same. -/
structure SameGraph (p q : Program α) : Prop where
  vars_eq : q.vars = p.vars
  cones_eq : q.cones = p.cones
  constraints_eq : q.constraints = p.constraints
  kindCounts_eq : q.kindCounts = p.kindCounts

namespace SameGraph

variable {p q : Program α}

theorem exported_eq (h : SameGraph p q) : q.exported = p.exported := by
  rw [exported, exported, termRows, termRows, h.constraints_eq, h.vars_eq]
  have hrow : q.termRow = p.termRow := by
    funext c
    rw [termRow, termRow, columnOrder, columnOrder, h.cones_eq]
  rw [hrow, columnOrder, columnOrder, h.cones_eq]

theorem fits_iff (h : SameGraph p q) {M : Matrices α} : M.Fits q ↔ M.Fits p := by
  rw [Matrices.Fits, Matrices.Fits, variableCount, variableCount, constraintCount, constraintCount,
    h.vars_eq, h.constraints_eq]

end SameGraph

/-- So are the indices, if the matrices are lent. -/
structure SameLoan (p q : Program α) : Prop extends SameGraph p q where
  columns_eq : q.session.map Session.columns = p.session.map Session.columns
  rows_eq : q.session.map Session.rows = p.session.map Session.rows

namespace SameLoan

variable {p q r : Program α}

theorem refl (p : Program α) : SameLoan p p := ⟨⟨rfl, rfl, rfl, rfl⟩, rfl, rfl⟩

theorem trans (hpq : SameLoan p q) (hqr : SameLoan q r) : SameLoan p r where
  vars_eq := hqr.vars_eq.trans hpq.vars_eq
  cones_eq := hqr.cones_eq.trans hpq.cones_eq
  constraints_eq := hqr.constraints_eq.trans hpq.constraints_eq
  kindCounts_eq := hqr.kindCounts_eq.trans hpq.kindCounts_eq
  columns_eq := hqr.columns_eq.trans hpq.columns_eq
  rows_eq := hqr.rows_eq.trans hpq.rows_eq

theorem isSome_session (h : SameLoan p q) (hlent : p.session.isSome) : q.session.isSome := by
  have hcolumns := congrArg Option.isSome h.columns_eq
  rwa [Option.isSome_map, Option.isSome_map, hlent] at hcolumns

end SameLoan

end Program

def Question.ofGraph : Question α → Bool
  | .lentMatrices | .isPrimalFeasible | .settings | .printed => false
  | _ => true

namespace Program.SameLoan

variable {p q : Program α}

/-- Programs with the same graph and the same indices have the same answers. -/
theorem answer_eq [Scalar α] (h : SameLoan p q) {question : Question α}
    (hq : question.ofGraph) : question.answer q = question.answer p := by
  obtain ⟨vars, cones, constraints, kindCounts, session, settings, output⟩ := p
  obtain ⟨vars', cones', constraints', kindCounts', session', settings', output'⟩ := q
  obtain ⟨⟨hvars, hcones, hcons, hkinds⟩, hcolumns, hrows⟩ := h
  dsimp only at hvars hcones hcons hkinds hcolumns hrows
  subst hvars hcones hcons hkinds
  cases session with
  | none =>
      obtain rfl : session' = none := Option.map_eq_none_iff.1 hcolumns
      cases question with
      | lentMatrices | isPrimalFeasible | settings | printed => cases hq
      | _ => rfl
  | some s =>
      obtain ⟨M, columns, rows⟩ := s
      obtain ⟨⟨M', columns', rows'⟩, rfl, rfl⟩ := Option.map_eq_some_iff.1 hcolumns
      obtain rfl : rows' = rows := Option.some.inj hrows
      -- the arrays may differ, and no question about the graph looks at them
      cases question with
      | lentMatrices | isPrimalFeasible | settings | printed => cases hq
      | _ => rfl

end Program.SameLoan

/-! ### What is done while the matrices are lent -/

def Event.isReturn (e : Event α) : Bool :=
  match e.operation, e.result with
  | .checkIn, .ok _ _ => true
  | _, _ => false

namespace Operation

open Program (SameLoan)

variable [Zero α] [Add α] [Mul α] [BEq α] {p : Program α} {op : Operation α}

theorem sameLoan_event (h : p.Coherent) (hlent : p.session.isSome) (op : Operation α)
    (hkept : (op.event p).isReturn = false) : SameLoan p (op.event p).after := by
  have houtcome := outcome_perform h op
  rw [event] at hkept ⊢
  generalize op.perform.run p = r at houtcome hkept ⊢
  cases houtcome with
  | refused hrefusal => exact .refl p
  | carriedOut hrefusal he =>
      cases he with
      | settingsChosen | targetChosen | kept => exact ⟨⟨rfl, rfl, rfl, rfl⟩, rfl, rfl⟩
      | lentEdited hs => exact ⟨⟨rfl, rfl, rfl, rfl⟩, by rw [hs]; rfl, by rw [hs]; rfl⟩
      | returned hs hret => cases hkept
      -- all other ways to end need an idle program
      | _ => simp_all

theorem session_of_isReturn (h : p.Coherent) (hreturn : (op.event p).isReturn) :
    (op.event p).after.session = none := by
  have houtcome := outcome_perform h op
  rw [event] at hreturn ⊢
  generalize op.perform.run p = r at houtcome hreturn ⊢
  cases op with
  | checkIn =>
      cases houtcome with
      | refused hrefusal => cases hreturn
      | carriedOut hrefusal he =>
          cases he with
          | coneCreated hop => cases hop
          | variableSet hop => cases hop
          | returned hs hret => rfl
          | kept hs hret => cases hreturn
  | _ => cases hreturn

/-- The check-out from which an idle program is lent after an event. -/
theorem sameLoan_of_opening (h : p.Coherent) (hidle : p.session = none)
    (hlent : (op.event p).after.session.isSome) :
    (op = .checkOut ∨ ∃ solver, op = .solveWith solver) ∧ SameLoan p.lent (op.event p).after := by
  have houtcome := outcome_perform h op
  rw [event] at hlent ⊢
  generalize op.perform.run p = r at houtcome hlent ⊢
  cases houtcome with
  | refused hrefusal => simp [Event.after, hidle] at hlent
  | carriedOut hrefusal he =>
      cases he with
      | lent => exact ⟨.inl rfl, .refl _⟩
      | unsolved => exact ⟨.inr ⟨_, rfl⟩, ⟨⟨rfl, rfl, rfl, rfl⟩, rfl, rfl⟩⟩
      -- all other ways to end leave an idle program idle
      | _ =>
          simp_all [Event.after, Program.withCone, Program.withoutCone, Program.returned,
            Program.printTo]

theorem sameLoan_performAll (h : p.Coherent) (hlent : p.session.isSome) {ops : List (Operation α)}
    (hkept : ∀ e ∈ trace p ops, e.isReturn = false) : SameLoan p (performAll p ops) := by
  induction ops generalizing p with
  | nil => exact .refl p
  | cons op ops ih =>
      have hstep := sameLoan_event h hlent op (hkept _ List.mem_cons_self)
      have hnext : (op.event p).after.Coherent := coherent_performAll h [op]
      rw [performAll_cons]
      exact hstep.trans (ih hnext (hstep.isSome_session hlent) fun e he =>
        hkept e (List.mem_cons_of_mem _ he))

/-- The session that is active after a history was opened with the program `c`: a check-out, on its
own or on behalf of a solver, led there, and the matrices have not been taken back since. -/
def OpenedWith (start : Program α) (history : List (Operation α)) (c : Program α) : Prop :=
  ∃ earlier opening later, history = earlier ++ opening :: later ∧
    (opening = .checkOut ∨ ∃ solver, opening = .solveWith solver) ∧
    (ProgramM.checkOut : ProgramM α Unit).run (performAll start earlier) = .ok () c ∧
    (performAll start (earlier ++ [opening])).isCheckedOut ∧
    ∀ e ∈ trace (performAll start (earlier ++ [opening])) later, e.isReturn = false

theorem OpenedWith.concat {start c : Program α} {history : List (Operation α)}
    (hc : OpenedWith start history c)
    (hkept : (op.event (performAll start history)).isReturn = false) :
    OpenedWith start (history ++ [op]) c := by
  obtain ⟨earlier, opening, later, rfl, hopening, hrun, hopen, hlater⟩ := hc
  refine ⟨earlier, opening, later ++ [op], by simp, hopening, hrun, hopen, ?_⟩
  rw [trace_concat, ← performAll_append]
  intro e he
  rcases List.mem_append.1 he with he | he
  · exact hlater e he
  · rw [List.mem_singleton.1 he, List.append_assoc]
    exact hkept

/-- A lent program has been lent by a check-out, and its graph is the one of then. -/
theorem exists_openedWith (id : Nat) (settings : Settings α) (history : List (Operation α))
    (hlent : (performAll (.empty id settings) history).session.isSome) :
    ∃ c, OpenedWith (.empty id settings) history c ∧
      SameLoan c (performAll (.empty id settings) history) := by
  induction history using List.reverseRecOn with
  | nil => cases hlent
  | append_singleton history op ih =>
      have h := coherent_of_empty id settings history
      have hconcat := performAll_concat (.empty id settings) history op
      rw [hconcat] at hlent ⊢
      by_cases hbefore : (performAll (.empty id settings) history).session.isSome
      · have hreturn : (op.event (performAll (.empty id settings) history)).isReturn = false := by
          rw [Bool.eq_false_iff]
          intro hreturn
          rw [session_of_isReturn h hreturn] at hlent
          cases hlent
        obtain ⟨c, hopened, hsame⟩ := ih hbefore
        exact ⟨c, hopened.concat hreturn, hsame.trans (sameLoan_event h hbefore op hreturn)⟩
      · have hidle := Option.not_isSome_iff_eq_none.1 hbefore
        obtain ⟨hopening, hsame⟩ := sameLoan_of_opening h hidle hlent
        refine ⟨_, ⟨history, op, [], rfl, hopening, ?_, ?_, ?_⟩, hsame⟩
        · rw [ProgramM.run_checkOut h, if_neg hbefore]
        · rw [hconcat]
          exact hlent
        · intro e he
          cases he

end Operation

/-! ### Isolation -/

/-- A program `q` with its matrices lent shows the graph of `c`, and it has the entities of this
graph indexed and no others. -/
structure Program.Isolated [Scalar α] (c q : Program α) : Prop where
  lent : q.isCheckedOut
  answer_eq : ∀ question : Question α, question.ofGraph → question.answer q = question.answer c
  columns_live : ∀ s, q.session = some s → ∀ v, v ∈ s.columns ↔ ∃ x, q.findVariable v = .ok x
  rows_live : ∀ s, q.session = some s → ∀ con, con ∈ s.rows ↔ ∃ c, q.findConstraint con = .ok c

/-- Whatever is done while the matrices are lent, short of taking them back, the graph shows what
it showed right after the check-out. -/
theorem Operation.performAll_isolated [Scalar α] (id : Nat) (settings : Settings α)
    (history ops : List (Operation α))
    (hlent : (performAll (.empty id settings) history).isCheckedOut)
    (hkept : ∀ e ∈ trace (performAll (.empty id settings) history) ops, e.isReturn = false) :
    ∃ c, OpenedWith (.empty id settings) history c ∧
      c.Isolated (performAll (performAll (.empty id settings) history) ops) := by
  obtain ⟨c, hopened, hsame⟩ := exists_openedWith id settings history hlent
  have h := coherent_of_empty id settings history
  have hsame' := hsame.trans (sameLoan_performAll h hlent hkept)
  have h' := coherent_performAll h ops
  refine ⟨c, hopened, ?_, fun question hq => hsame'.answer_eq hq, ?_, ?_⟩
  · exact (sameLoan_performAll h hlent hkept).isSome_session hlent
  · intro s hs v
    rw [(h'.session_order s hs).1]
    exact h'.mem_columnOrder_iff
  · intro s hs con
    rw [(h'.session_order s hs).2]
    exact Store.mem_handles_iff

/-- A borrower that ruins the values, while calls are refused and a check-in breaks off. -/
theorem Operation.performAll_isolated_from_ruin :
    let history : List (Operation (Extended ℚ)) := [.createOrthant, .createConstraint,
      .addVariable ⟨0, 0, 0⟩ ⟨0, 0, 0⟩ (.finite 2), .checkOut]
    let ops : List (Operation (Extended ℚ)) := [.editLent fun M => { M with x := #[], b := #[] },
      .checkIn, .checkOut, .deleteCone ⟨0, 0, 0⟩, .createSecondOrder 3]
    let p := performAll (.empty 0 ⟨false, .finite 1, true⟩) history
    p.isCheckedOut ∧ (∀ e ∈ trace p ops, e.isReturn = false) ∧
      ∃ c, OpenedWith (.empty 0 ⟨false, .finite 1, true⟩) history c ∧
        c.Isolated (performAll p ops) := by
  intro history ops p
  have hlent : p.isCheckedOut := by decide +kernel
  have hkept : ∀ e ∈ trace p ops, e.isReturn = false := by decide +kernel
  exact ⟨hlent, hkept, performAll_isolated 0 _ history ops hlent hkept⟩

end Socp
