import Mathlib.Algebra.Ring.Int.Defs
import Socp.Proofs.Output.Stream
import Socp.Proofs.Program.Relocation

/-!
What a program reports. A check-out and a check-in that succeed report one block each, if reports
are wanted, and nothing else reports at all. The text of a block is told by the graph alone, and the
target takes the blocks in their order, each of them whole or, in the case of a stream, up to the
first failure.
-/

namespace Socp

variable {α : Type}

/-! ### The text of a block -/

def textOf (lines : List String) : Text := lines.flatMap fun line => line.toList ++ "\n".toList

theorem textOf_append (lines more : List String) :
    textOf (lines ++ more) = textOf lines ++ textOf more :=
  List.flatMap_append

namespace Program

/-- The report on lending the program. A kind of cone has a line if there is such a cone. -/
def checkoutLines [Zero α] [BEq α] (p : Program α) : List String :=
  ["checkout: conic program (conicprog v" ++ productVersion ++ ")",
    "  variables     = " ++ toString p.vars.toList.length,
    "  constraints   = " ++ toString p.constraints.toList.length,
    "  nnz(A)        = " ++ toString (p.constraints.toList.map fun e => e.2.terms.size).sum,
    "  nnz(c)        = " ++ toString (p.vars.toList.countP fun e => e.2.objective != 0),
    "  cones (total) = " ++ toString p.cones.toList.length] ++
  (ConeKind.all.filter fun kind => p.conesOfKind kind ≠ []).map fun kind =>
    "    : " ++ kind.name ++ " = " ++ toString (p.conesOfKind kind).length

def checkinLines (p : Program α) : List String :=
  ["checkin:  reconciled " ++ toString p.vars.toList.length ++ " variables and " ++
    toString p.constraints.toList.length ++ " constraints"]

variable {p : Program α}

theorem flatten_checkin :
    (Summary.checkin p.vars.toList.length p.constraints.toList.length).flatten =
      textOf p.checkinLines := by
  simp [Summary.checkin, checkinLines, textOf, String.toList_append]

theorem flatten_coneLine (kind : ConeKind) (count : Nat) :
    ((Summary.coneLine kind count).map String.toList).flatten =
      if 0 < count then textOf ["    : " ++ kind.name ++ " = " ++ toString count] else [] := by
  rw [Summary.coneLine]
  split
  · simp [textOf, String.toList_append]
  · rfl

theorem Coherent.flatten_coneLines (h : p.Coherent) (kinds : List ConeKind) :
    (((kinds.map fun kind => (kind, p.kindCount kind)).flatMap fun (kind, count) =>
      Summary.coneLine kind count).map String.toList).flatten =
      textOf ((kinds.filter fun kind => p.conesOfKind kind ≠ []).map fun kind =>
        "    : " ++ kind.name ++ " = " ++ toString (p.conesOfKind kind).length) := by
  induction kinds with
  | nil => rfl
  | cons kind kinds ih =>
      rw [List.map_cons, List.flatMap_cons, List.map_append, List.flatten_append, ih,
        List.filter_cons]
      dsimp only
      rw [flatten_coneLine, h.wellFormed.kindCount_eq]
      by_cases hnil : p.conesOfKind kind = []
      · simp [hnil]
      · have hpos : 0 < (p.conesOfKind kind).length := List.length_pos_iff.2 hnil
        simp only [hnil, hpos, if_true, ne_eq, not_false_eq_true, decide_true, List.map_cons]
        exact (textOf_append [_] _).symm

theorem Coherent.flatten_checkoutText [Zero α] [BEq α] (h : p.Coherent) :
    p.checkoutText.flatten = textOf p.checkoutLines := by
  have hvars : p.exported.A.cols = p.vars.toList.length := by
    rw [h.cols_exported, h.wellFormed.variableCount_eq]
  have hcons : p.exported.A.rows = p.constraints.toList.length := by
    rw [p.rows_exported, h.wellFormed.constraintCount_eq]
  have hA : (p.constraints.values.map fun con => con.terms.size).sum =
      (p.constraints.toList.map fun e => e.2.terms.size).sum := by
    rw [Store.values, List.map_map]
    rfl
  have hc : Dense.cardinality p.exported.c.toList =
      p.vars.toList.countP fun e => e.2.objective != 0 := by
    have hobjectives : p.exported.c.toList = p.vars.toList.map fun e => e.2.objective := by
      show p.vars.values.map (·.objective) = _
      rw [Store.values, List.map_map]
      rfl
    rw [Dense.cardinality, hobjectives, List.countP_map]
    rfl
  have htotal : (ConeKind.all.map fun kind => (kind, p.kindCount kind)).foldl
      (fun total entry => total + entry.2) 0 = p.cones.toList.length := by
    have hsum := h.wellFormed.kindCount_add
    rw [h.wellFormed.coneCount_eq] at hsum
    simpa [ConeKind.all] using hsum
  rw [checkoutText, Summary.checkout]
  dsimp only
  rw [hvars, hcons, hA, hc, htotal, List.map_append, List.flatten_append, h.flatten_coneLines,
    checkoutLines, textOf_append]
  refine congrArg (· ++ _) ?_
  simp [Summary.line, textOf, String.toList_append]

end Program

/-! ### The blocks of an event -/

def Operation.lends : Operation α → Bool
  | .checkOut | .checkIn | .solveWith _ => true
  | _ => false

def Operation.redirects : Operation α → Bool
  | .printTo _ => true
  | _ => false

/-- The blocks that an event reports. A solver that breaks off, or spoils the lengths, has been lent
the matrices, and they have not been taken back. -/
def Event.blocks [Zero α] [BEq α] (e : Event α) : List Text :=
  if e.before.settings.verbose then
    match e.operation, e.reply with
    | .checkOut, .ok _ => [textOf e.before.checkoutLines]
    | .checkIn, .ok _ => [textOf e.before.checkinLines]
    | .solveWith _, .ok _ => [textOf e.before.checkoutLines, textOf e.before.checkinLines]
    | .solveWith _, .error .aborted => [textOf e.before.checkoutLines]
    | _, _ => []
  else []

/-- The target takes the blocks of the event, and stays as it was if there are none: while reports
are off, and where lending or taking back fails. -/
structure Event.Reported [Zero α] [BEq α] (e : Event α) : Prop where
  takes : e.before.output.Takes e.blocks e.after.output
  silent : e.blocks = [] → e.after.output = e.before.output
  quiet : e.before.settings.verbose = false → e.after.output = e.before.output
  failed : e.operation = .checkOut ∨ e.operation = .checkIn → ∀ fault, e.reply = .error fault →
    e.after.output = e.before.output

namespace Event

variable [Zero α] [BEq α] {e : Event α}

theorem blocks_of_quiet (h : e.before.settings.verbose = false) : e.blocks = [] := by
  rw [blocks, h]
  rfl

theorem blocks_of_lends (h : e.operation.lends = false) : e.blocks = [] := by
  obtain ⟨p, op, r⟩ := e
  rw [blocks]
  cases op with
  | checkOut | checkIn | solveWith => cases h
  | _ => exact ite_self []

theorem blocks_of_refused {cause : ProgramError} (h : e.reply = .error (.refused cause)) :
    e.blocks = [] := by
  obtain ⟨p, op, r⟩ := e
  rw [blocks, h]
  cases op <;> exact ite_self []

theorem blocks_of_failed (hop : e.operation = .checkOut ∨ e.operation = .checkIn)
    {fault : Fault} (h : e.reply = .error fault) : e.blocks = [] := by
  rw [blocks, h]
  obtain hop | hop := hop <;> rw [hop] <;> exact ite_self []

theorem Reported.of_takes (h : e.before.output.Takes e.blocks e.after.output) : e.Reported := by
  have hsilent : e.blocks = [] → e.after.output = e.before.output := by
    intro hnil
    rw [hnil] at h
    exact h.eq_of_nil
  exact ⟨h, hsilent, fun hquiet => hsilent (blocks_of_quiet hquiet),
    fun hop fault hfailed => hsilent (blocks_of_failed hop hfailed)⟩

theorem Reported.of_nil (hnil : e.blocks = []) (houtput : e.after.output = e.before.output) :
    e.Reported := by
  apply of_takes
  rw [hnil, houtput]
  exact e.before.output.takes_nil

end Event

/-! ### One operation -/

namespace Program

variable {p : Program α}

theorem Coherent.takes_lent [Zero α] [BEq α] (h : p.Coherent) :
    p.output.Takes (if p.settings.verbose then [textOf p.checkoutLines] else []) p.lent.output := by
  rw [Program.lent, ← h.flatten_checkoutText]
  dsimp only
  split
  · exact p.output.takes_write _
  · exact p.output.takes_nil

theorem Coherent.takes_returned (h : p.Coherent) {s : Session α} (hs : p.session = some s) :
    p.output.Takes (if p.settings.verbose then [textOf p.checkinLines] else [])
      (p.returned s).output := by
  obtain ⟨hcolumns, hrows⟩ := h.session_order s hs
  have hcols : s.columns.length = p.vars.toList.length := by
    rw [hcolumns, h.columnOrder_eq, Store.handles, List.length_map]
  have hcons : s.rows.length = p.constraints.toList.length := by
    rw [hrows, rowOrder, Store.handles, List.length_map]
  rw [Program.returned, ← flatten_checkin, ← hcols, ← hcons]
  dsimp only
  split
  · exact p.output.takes_write _
  · exact p.output.takes_nil

/-- Both reports on lending to a solver and taking back. The graph is the same in both. -/
theorem Coherent.takes_solved [Zero α] [BEq α] (h : p.Coherent) (M : Matrices α) :
    p.output.Takes
      (if p.settings.verbose then [textOf p.checkoutLines, textOf p.checkinLines] else [])
      ((p.lentAs M).returned (p.loan.withMatrices M)).output := by
  have hboth := h.takes_lent.append ((h.lentAs M).takes_returned rfl)
  have hsettings : (p.lentAs M).settings = p.settings := rfl
  rw [hsettings] at hboth
  by_cases hverbose : p.settings.verbose
  · simp only [if_pos hverbose] at hboth ⊢
    exact hboth
  · simp only [if_neg hverbose] at hboth ⊢
    exact hboth

end Program

namespace Operation

variable [Zero α] [Add α] [Mul α] [BEq α] {p : Program α}

/-- Every operation but the choice of a target reports what it should to the target there is. -/
theorem reported_event (h : p.Coherent) {op : Operation α} (hop : op.redirects = false) :
    (op.event p).Reported := by
  have houtcome := outcome_perform h op
  rw [event]
  generalize op.perform.run p = r at houtcome
  cases houtcome with
  | refused hrefusal => exact .of_nil (Event.blocks_of_refused rfl) rfl
  | carriedOut hrefusal he =>
      cases he with
      | coneCreated hnew =>
          refine .of_nil (Event.blocks_of_lends ?_) rfl
          cases op <;> first | rfl | cases hnew
      | variableSet hset =>
          refine .of_nil (Event.blocks_of_lends ?_) rfl
          cases op <;> first | rfl | cases hset
      | constraintCreated | coneDeleted | constraintDeleted | termSet | rhsSet | objectiveAdded
      | settingsChosen | lentEdited => exact .of_nil (Event.blocks_of_lends rfl) rfl
      | targetChosen => cases hop
      | kept => exact .of_nil (ite_self []) rfl
      | lent hidle => exact .of_takes h.takes_lent
      | returned hs hret => exact .of_takes (h.takes_returned hs)
      | unsolved hidle hsolver hkept => exact .of_takes h.takes_lent
      | solved hidle hsolver hret => exact .of_takes (h.takes_solved _)

/-! ### Whole runs -/

theorem takes_performAll (h : p.Coherent) {ops : List (Operation α)}
    (hops : ∀ op ∈ ops, op.redirects = false) :
    p.output.Takes ((trace p ops).flatMap Event.blocks) (performAll p ops).output ∧
      ∀ e ∈ trace p ops, e.Reported := by
  induction ops generalizing p with
  | nil =>
      refine ⟨p.output.takes_nil, ?_⟩
      intro e he
      cases he
  | cons op ops ih =>
      have hstep := reported_event h (hops op List.mem_cons_self)
      have hnext : (op.event p).after.Coherent := coherent_performAll h [op]
      obtain ⟨hrest, heach⟩ := ih hnext fun op' hop' => hops op' (List.mem_cons_of_mem _ hop')
      rw [performAll_cons, trace, List.flatMap_cons, List.forall_mem_cons]
      exact ⟨hstep.takes.append hrest, hstep, heach⟩

/-- A target that is chosen in a reachable program receives the blocks of all that is done from then
on, told by the graph of the moment. A buffer holds all of them. A stream has received a prefix of
each, and all of them if it always accepts something. -/
theorem performAll_reports (id : Nat) (settings : Settings α) (history : List (Operation α))
    (target : PrintTarget) (ops : List (Operation α)) (hops : ∀ op ∈ ops, op.redirects = false) :
    let p := (performAll (.empty id settings) history).printTo target
    let blocks := (trace p ops).flatMap Event.blocks
    (∀ e ∈ trace p ops, e.Reported) ∧ target.Takes blocks (performAll p ops).output ∧
      (∀ text, target = .buffer text →
        (performAll p ops).output.buffered = .ok (text ++ blocks.flatten)) ∧
      ∀ s, target = .stream s → ∃ t parts, (performAll p ops).output = .stream t ∧
        t.accepts = s.accepts ∧ t.received = s.received ++ parts.flatten ∧
          List.Forall₂ (· <+: ·) parts blocks ∧
            ((∀ a ∈ t.attempts, a.failed = false) → parts = blocks) ∧
              ((∀ earlier offered, offered ≠ [] → s.accepts earlier offered ≠ 0) →
                parts = blocks) := by
  intro p blocks
  have h : p.Coherent := (coherent_of_empty id settings history).output target
  obtain ⟨htakes, heach⟩ := takes_performAll h hops
  have htarget : target.Takes blocks (performAll p ops).output := htakes
  refine ⟨heach, htarget, ?_, ?_⟩
  · rintro text rfl
    exact htarget.buffered_eq
  · rintro s rfl
    exact htarget.exists_parts

/-- A stream that breaks down in the middle of the first block and works again for the next, while
calls fail and reports are turned off for a time. -/
theorem performAll_reports_to_failing_stream :
    let s : TextStream := .limited 50 true
    let ops : List (Operation Int) := [.checkIn, .checkOut, .checkOut, .checkIn,
      .chooseSettings ⟨some false, none, none⟩, .checkOut, .checkIn,
      .chooseSettings ⟨some true, none, none⟩, .solveWith fun M => (none, M), .checkIn]
    let p := (performAll (.empty 0 ⟨true, 0, true⟩) [.createRotated 3, .createConstraint,
      .addVariable ⟨0, 0, 0⟩ ⟨0, 1, 0⟩ 7, .setObjectiveCoefficient ⟨0, 2, 0⟩ 1]).printTo (.stream s)
    let blocks := (trace p ops).flatMap Event.blocks
    (∀ op ∈ ops, op.redirects = false) ∧ 50 < (textOf p.checkoutLines).length ∧
      blocks = [textOf p.checkoutLines, textOf p.checkinLines, textOf p.checkoutLines,
        textOf p.checkinLines] ∧
      ∃ t parts, (performAll p ops).output = .stream t ∧ t.accepts = s.accepts ∧
        t.received = parts.flatten ∧ List.Forall₂ (· <+: ·) parts blocks ∧
          t.received = (textOf p.checkoutLines).take 50 ++ textOf p.checkinLines ++
            textOf p.checkoutLines ++ textOf p.checkinLines := by
  intro s ops p blocks
  have hops : ∀ op ∈ ops, op.redirects = false := by decide
  obtain ⟨t, parts, ht, haccepts, hreceived, hparts, -⟩ :=
    (performAll_reports 0 ⟨true, 0, true⟩ _ (.stream s) ops hops).2.2.2 s rfl
  have harrived : (match (performAll p ops).output with | .stream t => t.received | _ => []) =
      (textOf p.checkoutLines).take 50 ++ textOf p.checkinLines ++ textOf p.checkoutLines ++
        textOf p.checkinLines := by
    decide +kernel
  rw [ht] at harrived
  exact ⟨hops, by decide +kernel, by decide +kernel, t, parts, ht, haccepts, hreceived, hparts,
    harrived⟩

end Operation

end Socp
