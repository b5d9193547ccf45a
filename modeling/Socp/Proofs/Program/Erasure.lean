import Mathlib.Data.List.InsertIdx
import Socp.Proofs.Program.Checkout

/-!
Deletion seen in the matrices. A cone takes the columns of its variables with it and a constraint
takes its row; all that is left stays as it was, in the same order, and closes up.
-/

namespace Socp

/-! ### What is left of a list -/

section

variable {β γ : Type}

/-- The list without `count` members from position `first` on. -/
def cutOut (first count : Nat) (l : List β) : List β := l.take first ++ l.drop (first + count)

theorem map_cutOut (f : β → γ) (first count : Nat) (l : List β) :
    cutOut first count (l.map f) = (cutOut first count l).map f := by
  simp [cutOut]

theorem cutOut_append (before stretch after : List β) :
    cutOut before.length stretch.length (before ++ (stretch ++ after)) = before ++ after := by
  rw [cutOut, List.take_left, ← List.append_assoc, ← List.length_append, List.drop_left]

/-- Where a member of a list is found once a stretch has been cut out before it or after it. -/
theorem getElem?_append_of_not_mem {before stretch after : List β} {j : Nat} {b : β}
    (hj : (before ++ (stretch ++ after))[j]? = some b) (hb : b ∉ stretch) :
    (before ++ after)[if j < before.length then j else j - stretch.length]? = some b := by
  by_cases hbefore : j < before.length
  · rw [if_pos hbefore, List.getElem?_append_left hbefore]
    rwa [List.getElem?_append_left hbefore] at hj
  · rw [if_neg hbefore]
    rw [List.getElem?_append_right (by omega)] at hj
    by_cases hstretch : j - before.length < stretch.length
    · rw [List.getElem?_append_left hstretch] at hj
      exact absurd (List.mem_of_getElem? hj) hb
    · rw [List.getElem?_append_right (by omega)] at hj ⊢
      rw [← hj]
      congr 1
      omega

/-- What becomes of an entry of a column when row `r` is taken out. Rows behind it move up. -/
def withoutRow? (r : Nat) (t : Nat × β) : Option (Nat × β) :=
  if t.1 < r then some t else if t.1 = r then none else some (t.1 - 1, t.2)

theorem filterMap_zipIdx_succ (f : β → Option γ) (l : List β) (start : Nat) :
    ((l.zipIdx (start + 1)).filterMap fun (b, i) => (f b).map (i, ·)).filterMap
        (withoutRow? start) =
      (l.zipIdx start).filterMap fun (b, i) => (f b).map (i, ·) := by
  rw [List.zipIdx_succ, List.filterMap_map, List.filterMap_filterMap]
  refine List.filterMap_congr ?_
  rintro ⟨b, i⟩ hi
  have hle := List.le_snd_of_mem_zipIdx hi
  dsimp only at hle
  show ((f b).map (i + 1, ·)).bind (withoutRow? start) = (f b).map (i, ·)
  cases f b with
  | none => rfl
  | some a =>
      have hlt : ¬i + 1 < start := by omega
      have hne : i + 1 ≠ start := by omega
      simp [withoutRow?, hlt, hne]

/-- What is collected along a list with one member less. -/
theorem filterMap_zipIdx_eraseIdx (f : β → Option γ) (l : List β) (r start : Nat) :
    ((l.eraseIdx r).zipIdx start).filterMap (fun (b, i) => (f b).map (i, ·)) =
      ((l.zipIdx start).filterMap fun (b, i) => (f b).map (i, ·)).filterMap
        (withoutRow? (start + r)) := by
  induction l generalizing r start with
  | nil => rfl
  | cons b l ih =>
      rw [List.zipIdx_cons, List.filterMap_cons]
      cases r with
      | zero =>
          rw [List.eraseIdx_cons_zero, ← filterMap_zipIdx_succ, Nat.add_zero]
          dsimp only
          cases f b with
          | none => rfl
          | some a => simp [withoutRow?]
      | succ r =>
          have hrest := ih r (start + 1)
          rw [List.eraseIdx_cons_succ, List.zipIdx_cons, List.filterMap_cons, hrest,
            Nat.add_right_comm, Nat.add_assoc]
          dsimp only
          cases f b with
          | none => rfl
          | some a => simp [withoutRow?]

end

variable {α : Type}

/-! ### What is left of the matrices -/

namespace Matrices

/-- `M'` is `M` without `count` columns from `first` on. -/
structure WithoutColumns (M M' : Matrices α) (first count : Nat) : Prop where
  inside : first + count ≤ M.A.cols
  A_eq : ∃ columns, M.A = .ofColumns M.A.rows columns ∧
    M'.A = .ofColumns M.A.rows (cutOut first count columns)
  b_eq : M'.b = M.b
  c_eq : M'.c.toList = cutOut first count M.c.toList
  x_eq : M'.x.toList = cutOut first count M.x.toList
  s_eq : M'.s.toList = cutOut first count M.s.toList
  w_eq : M'.w = M.w

/-- `M'` is `M` without row `r`. -/
structure WithoutRow (M M' : Matrices α) (r : Nat) : Prop where
  inside : r < M.A.rows
  A_eq : ∃ columns, M.A = .ofColumns M.A.rows columns ∧
    M'.A = .ofColumns (M.A.rows - 1) (columns.map fun column => column.filterMap (withoutRow? r))
  b_eq : M'.b.toList = M.b.toList.eraseIdx r
  c_eq : M'.c = M.c
  x_eq : M'.x = M.x
  s_eq : M'.s = M.s
  w_eq : M'.w.toList = M.w.toList.eraseIdx r

end Matrices

theorem Constraint.coefficient_eraseTerms {c : Constraint α} {vs : List VariableId}
    {v : VariableId} (hv : v ∉ vs) : (c.eraseTerms vs).coefficient v = c.coefficient v := by
  ext a
  rw [coefficient_eraseTerms_eq_some_iff]
  exact and_iff_right hv

namespace Program

variable {p : Program α}

/-! ### A cone -/

section

variable {id : ConeId} {cone : Cone}

theorem values_constraints_withoutCone :
    (p.withoutCone id cone).constraints.values =
      p.constraints.values.map (·.eraseTerms cone.vars) := by
  rw [withoutCone, Store.values, Store.toList_mapValues, Store.values, List.map_map, List.map_map]
  rfl

theorem map_constraints_withoutCone {γ : Type} {view : Constraint α → γ}
    (hview : ∀ c, view (c.eraseTerms cone.vars) = view c) :
    (p.withoutCone id cone).constraints.values.map view = p.constraints.values.map view := by
  rw [values_constraints_withoutCone, List.map_map]
  exact List.map_congr_left fun c _ => hview c

theorem columnEntries_withoutCone {v : VariableId} (hv : v ∉ cone.vars) :
    (p.withoutCone id cone).columnEntries v = p.columnEntries v := by
  rw [columnEntries, values_constraints_withoutCone, List.zipIdx_map, List.filterMap_map,
    columnEntries]
  refine List.filterMap_congr ?_
  rintro ⟨con, r⟩ -
  exact congrArg (Option.map (r, ·)) (Constraint.coefficient_eraseTerms hv)

/-- The variables of a cone stand together among the variables. -/
theorem Coherent.exists_stretch (h : p.Coherent) (hcone : p.cones.find id = .ok cone) :
    ∃ before stretch after, p.vars.toList = before ++ (stretch ++ after) ∧
      stretch.map (·.1) = cone.vars ∧
      (p.withoutCone id cone).vars.toList = before ++ after := by
  obtain ⟨earlier, later, hl, -⟩ := Store.toList_cut hcone
  have horder : p.vars.toList.map (·.1) =
      earlier.flatMap (fun e => e.2.vars) ++ (cone.vars ++ later.flatMap fun e => e.2.vars) := by
    show p.vars.handles = _
    rw [← h.columnOrder_eq, columnOrder_eq_flatMap, hl, List.flatMap_append, List.flatMap_cons]
  obtain ⟨before, rest, hlist, -, hrest⟩ := List.map_eq_append_iff.1 horder
  obtain ⟨stretch, after, rfl, hstretch, -⟩ := List.map_eq_append_iff.1 hrest
  refine ⟨before, stretch, after, hlist, hstretch, ?_⟩
  have hnodup : (p.vars.toList.map (·.1)).Nodup := p.vars.handles_nodup
  have hclear : (p.withoutCone id cone).vars.toList = _ :=
    Store.toList_clear (h.vars_nodup hcone) fun _ => h.live_of_mem_vars hcone
  rw [hlist] at hnodup hclear
  rw [hclear, ← hstretch]
  exact filter_not_mem_stretch Prod.fst hnodup

/-- A cone goes with the columns of its variables. -/
theorem Coherent.exported_withoutCone (h : p.Coherent) (hidle : p.session = none)
    (hcone : p.cones.find id = .ok cone) :
    ∃ before stretch after, p.vars.handles = before ++ (stretch ++ after) ∧
      stretch = cone.vars ∧ (p.withoutCone id cone).vars.handles = before ++ after ∧
      p.exported.WithoutColumns (p.withoutCone id cone).exported before.length stretch.length := by
  obtain ⟨before, stretch, after, hvars, hstretch, hleft⟩ := h.exists_stretch hcone
  have h' := h.withoutCone hidle hcone
  have hhandles : p.vars.handles =
      before.map (·.1) ++ (stretch.map (·.1) ++ after.map (·.1)) := by
    rw [Store.handles, hvars, List.map_append, List.map_append]
  have hhandles' : (p.withoutCone id cone).vars.handles = before.map (·.1) ++ after.map (·.1) := by
    rw [Store.handles, hleft, List.map_append]
  refine ⟨_, _, _, hhandles, hstretch, hhandles', ?_⟩
  -- what is taken from the variables in their order loses the stretch
  have hcut : ∀ {γ : Type} (f : VariableId × Variable α → γ),
      (p.withoutCone id cone).vars.toList.map f =
        cutOut before.length stretch.length (p.vars.toList.map f) := by
    intro γ f
    rw [hleft, hvars, map_cutOut, cutOut_append]
  rw [List.length_map, List.length_map]
  constructor
  case inside =>
    rw [h.cols_exported, variableCount, ← Store.length_toList, hvars]
    simp only [List.length_append]
    omega
  case A_eq =>
    refine ⟨p.columnOrder.map p.columnEntries, ?_, ?_⟩
    · rw [p.rows_exported]
      exact h.exported_A
    · have hcolumns : (p.withoutCone id cone).columnOrder.map
          (p.withoutCone id cone).columnEntries =
            (p.withoutCone id cone).vars.handles.map p.columnEntries := by
        rw [h'.columnOrder_eq]
        refine List.map_congr_left ?_
        intro v hv
        rw [h.handles_vars_withoutCone hcone, List.mem_filter] at hv
        exact columnEntries_withoutCone (by simpa using hv.2)
      rw [p.rows_exported, h'.exported_A, hcolumns, h.columnOrder_eq, Store.handles, Store.handles,
        List.map_map, List.map_map, hcut]
      rfl
  case b_eq => exact congrArg List.toArray (map_constraints_withoutCone fun _ => rfl)
  case w_eq => exact congrArg List.toArray (map_constraints_withoutCone fun _ => rfl)
  case c_eq => simpa [exported, Store.values, Function.comp_def] using hcut fun e => e.2.objective
  case x_eq => simpa [exported, Store.values, Function.comp_def] using hcut fun e => e.2.primal
  case s_eq => simpa [exported, Store.values, Function.comp_def] using hcut fun e => e.2.dual

end

/-! ### A constraint -/

theorem exists_place {con : ConstraintId} {c : Constraint α}
    (hcon : p.constraints.find con = .ok c) :
    ∃ before after, p.constraints.handles = before ++ ([con] ++ after) ∧
      (p.constraints.assign con.slot none).handles = before ++ after ∧
      (p.constraints.assign con.slot none).values =
        p.constraints.values.eraseIdx before.length := by
  obtain ⟨before, after, hcons, hleft⟩ := Store.toList_cut hcon
  refine ⟨before.map (·.1), after.map (·.1), ?_, ?_, ?_⟩
  · rw [Store.handles, hcons, List.map_append, List.map_cons]
    rfl
  · rw [Store.handles, hleft, List.map_append]
  · rw [Store.values, hleft, Store.values, hcons, List.map_append, List.map_append, List.map_cons,
      List.eraseIdx_append_of_length_le (by simp)]
    simp

/-- The columns lose what they have in the row of the constraint. -/
theorem columnEntries_of_eraseIdx {q : Program α} {r : Nat}
    (hvalues : q.constraints.values = p.constraints.values.eraseIdx r) (v : VariableId) :
    q.columnEntries v = (p.columnEntries v).filterMap (withoutRow? r) := by
  have herase := filterMap_zipIdx_eraseIdx (fun c : Constraint α => c.coefficient v)
    p.constraints.values r 0
  rw [Nat.zero_add] at herase
  rw [columnEntries, hvalues]
  exact herase

/-- A constraint goes with its row. -/
theorem Coherent.exported_withoutConstraint (h : p.Coherent) (hidle : p.session = none)
    {con : ConstraintId} {c : Constraint α} (hcon : p.constraints.find con = .ok c) :
    let p' := { p with constraints := p.constraints.assign con.slot none }
    ∃ before after, p.constraints.handles = before ++ ([con] ++ after) ∧
      p'.constraints.handles = before ++ after ∧
        p.exported.WithoutRow p'.exported before.length := by
  intro p'
  have h' : p'.Coherent := h.deleteConstraint hidle hcon
  obtain ⟨before, after, hhandles, hhandles', hvalues⟩ := exists_place hcon
  refine ⟨before, after, hhandles, hhandles', ?_⟩
  have hcount : p.constraintCount = before.length + (1 + after.length) := by
    rw [constraintCount, ← Store.length_handles, hhandles]
    simp only [List.length_append, List.length_singleton]
  have hcount' : p'.constraintCount = before.length + after.length := by
    rw [constraintCount, ← Store.length_handles, hhandles', List.length_append]
  constructor
  case inside =>
    rw [p.rows_exported, hcount]
    omega
  case A_eq =>
    refine ⟨p.columnOrder.map p.columnEntries, ?_, ?_⟩
    · rw [p.rows_exported]
      exact h.exported_A
    · have hrows : p'.constraintCount = p.constraintCount - 1 := by omega
      rw [p.rows_exported, h'.exported_A, hrows, List.map_map]
      congr 1
      exact List.map_congr_left fun v _ => columnEntries_of_eraseIdx hvalues v
  case b_eq =>
    show p'.constraints.values.map (·.rhs) = (p.constraints.values.map (·.rhs)).eraseIdx _
    rw [hvalues, List.eraseIdx_map]
  case w_eq =>
    show p'.constraints.values.map (·.dual) = (p.constraints.values.map (·.dual)).eraseIdx _
    rw [hvalues, List.eraseIdx_map]
  case c_eq => rfl
  case x_eq => rfl
  case s_eq => rfl

/-! ### Lending before and after -/

/-- Deleting something live in `p` erases its part of the matrices `M`, which `q` has lent. -/
structure DeletionErases [Zero α] [BEq α] (p q : Program α) (M : Matrices α) : Prop where
  cone : ∀ id cone, p.findCone id = .ok cone → ∃ p' q' M' first,
    (ProgramM.deleteCone id).run p = .ok () p' ∧ p'.Lends q' M' ∧
      (∀ i v, cone.vars[i]? = some v → q.columnOf v = .ok (first + i)) ∧
      M.WithoutColumns M' first cone.dim ∧
      (∀ v j, v ∉ cone.vars → q.columnOf v = .ok j →
        q'.columnOf v = .ok (if j < first then j else j - cone.dim)) ∧
      ∀ con i, q.rowOf con = .ok i → q'.rowOf con = .ok i
  constraint : ∀ con c, p.findConstraint con = .ok c → ∃ p' q' M' r,
    (ProgramM.deleteConstraint con).run p = .ok () p' ∧ p'.Lends q' M' ∧
      q.rowOf con = .ok r ∧ M.WithoutRow M' r ∧
      (∀ con' i, con' ≠ con → q.rowOf con' = .ok i →
        q'.rowOf con' = .ok (if i < r then i else i - 1)) ∧
      ∀ v j, q.columnOf v = .ok j → q'.columnOf v = .ok j

theorem Coherent.deletionErases [Zero α] [BEq α] (h : p.Coherent) (hidle : p.session = none) :
    p.DeletionErases p.lent p.exported := by
  have hcolumn {v : VariableId} {j : Nat} :
      p.lent.columnOf v = .ok j ↔ p.vars.handles[j]? = some v := by
    rw [← h.columnOrder_eq]
    exact h.lent.columnOf_eq_ok_iff rfl
  have hrow {con : ConstraintId} {i : Nat} :
      p.lent.rowOf con = .ok i ↔ p.constraints.handles[i]? = some con :=
    h.lent.rowOf_eq_ok_iff rfl
  constructor
  case cone =>
    intro id cone hcone
    have h' := h.withoutCone hidle hcone
    obtain ⟨before, stretch, after, hall, rfl, hleft, hcut⟩ := h.exported_withoutCone hidle hcone
    refine ⟨_, _, _, before.length, ?_, h'.lends hidle, ?_, hcut, ?_, ?_⟩
    · have hfind : p.cones.find id = .ok cone := hcone
      rw [ProgramM.run_deleteCone h, hidle, hfind]
      rfl
    · intro i v hi
      obtain ⟨hlt, -⟩ := List.getElem?_eq_some_iff.1 hi
      rw [hcolumn, hall, List.getElem?_append_right (Nat.le_add_right ..), Nat.add_sub_cancel_left,
        List.getElem?_append_left hlt, hi]
    · intro v j hv hj
      rw [h'.lent.columnOf_eq_ok_iff rfl]
      show (p.withoutCone id cone).columnOrder[_]? = _
      rw [h'.columnOrder_eq, hleft]
      rw [hcolumn, hall] at hj
      exact getElem?_append_of_not_mem hj hv
    · intro con i hi
      rw [h'.lent.rowOf_eq_ok_iff rfl]
      show (p.constraints.mapValues _).handles[i]? = _
      rw [Store.handles_mapValues]
      exact hrow.1 hi
  case constraint =>
    intro con c hcon
    have h' := h.deleteConstraint hidle hcon
    obtain ⟨before, after, hall, hleft, hcut⟩ := h.exported_withoutConstraint hidle hcon
    refine ⟨_, _, _, before.length, ?_, h'.lends hidle, ?_, hcut, ?_, ?_⟩
    · have hfind : p.constraints.find con = .ok c := hcon
      rw [ProgramM.run_deleteConstraint, hidle, hfind]
      rfl
    · rw [hrow, hall, List.getElem?_append_right (Nat.le_refl _), Nat.sub_self]
      rfl
    · intro con' i hne hi
      rw [h'.lent.rowOf_eq_ok_iff rfl]
      show (p.constraints.assign con.slot none).handles[_]? = _
      rw [hleft]
      rw [hrow, hall] at hi
      exact getElem?_append_of_not_mem hi (by simpa using hne)
    · intro v j hj
      rw [h'.lent.columnOf_eq_ok_iff rfl]
      exact (h.lent.columnOf_eq_ok_iff rfl).1 hj

end Program

/-- In every reachable program that is not lent, deletion is erasure of columns and of rows. -/
theorem Operation.deletion_erases [Zero α] [Add α] [Mul α] [BEq α] (id : Nat)
    (settings : Settings α) (ops : List (Operation α))
    (hidle : (performAll (.empty id settings) ops).session = none) :
    ∃ q M, (performAll (.empty id settings) ops).Lends q M ∧
      (performAll (.empty id settings) ops).DeletionErases q M := by
  have h := coherent_of_empty id settings ops
  exact ⟨_, _, h.lends hidle, h.deletionErases hidle⟩

/-- A cone goes from between two others and leaves a constraint without a term; the constraint with
the other term goes. -/
theorem Operation.deletion_erases_between :
    let p := performAll (.empty 0 ⟨true, 0, false⟩)
      ([.createOrthant, .createSecondOrder 2, .createOrthant, .createConstraint,
        .createConstraint, .addVariable ⟨0, 0, 0⟩ ⟨0, 1, 0⟩ 5, .addVariable ⟨0, 1, 0⟩ ⟨0, 3, 0⟩ 7,
        .addVariable ⟨0, 1, 0⟩ ⟨0, 2, 0⟩ 0] : List (Operation Int))
    p.session = none ∧ ∃ q M, p.Lends q M ∧
      (∃ p' q' M', (ProgramM.deleteCone ⟨0, 1, 0⟩).run p = .ok () p' ∧ p'.Lends q' M' ∧
        M.WithoutColumns M' 1 2) ∧
      ∃ p' q' M', (ProgramM.deleteConstraint ⟨0, 1, 0⟩).run p = .ok () p' ∧ p'.Lends q' M' ∧
        M.WithoutRow M' 1 := by
  intro p
  have hidle : p.session = none := by decide +kernel
  have hcone : p.findCone ⟨0, 1, 0⟩ = .ok (.secondOrder [⟨0, 1, 0⟩] ⟨0, 2, 0⟩) := by
    decide +kernel
  obtain ⟨c, hcon⟩ : ∃ c, p.findConstraint ⟨0, 1, 0⟩ = .ok c := ⟨_, rfl⟩
  have hindices : (match (ProgramM.checkOut : ProgramM Int Unit).run p with
      | .ok _ q => (q.columnOf ⟨0, 1, 0⟩, q.rowOf ⟨0, 1, 0⟩)
      | .error _ _ => (.ok 0, .ok 0)) = (.ok 1, .ok 1) := by
    decide +kernel
  obtain ⟨q, M, hlends, herases⟩ := deletion_erases 0 _ _ hidle
  rw [hlends.1] at hindices
  obtain ⟨hcolumn, hrow⟩ := Prod.mk.inj hindices
  refine ⟨hidle, q, M, hlends, ?_, ?_⟩
  · obtain ⟨p', q', M', first, hdelete, hlends', hcolumns, hcut, -⟩ := herases.cone _ _ hcone
    have hfirst := hcolumns 0 _ rfl
    rw [hcolumn] at hfirst
    cases hfirst
    exact ⟨p', q', M', hdelete, hlends', hcut⟩
  · obtain ⟨p', q', M', r, hdelete, hlends', hr, hcut, -⟩ := herases.constraint _ _ hcon
    rw [hrow] at hr
    cases hr
    exact ⟨p', q', M', hdelete, hlends', hcut⟩

end Socp
