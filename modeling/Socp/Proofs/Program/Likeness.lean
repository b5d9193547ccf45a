import Socp.Proofs.Program.Loan

/-!
Programs that hold the same graph. Handles carry numbers, slots and generations, but all that ever
shows of them in the matrices is the order of the live ones, so programs with different pasts that
hold the same graph lend the same matrices.
-/

namespace Socp

variable {α : Type}

namespace Program

/-- Two programs hold the same graph, entity by entity in the order of creation, where each term
goes by the position of its variable. How the variables are grouped into cones is left open. -/
structure Alike (p q : Program α) : Prop where
  variables_eq : p.vars.values.map (fun x => (x.primal, x.dual, x.objective)) =
    q.vars.values.map fun x => (x.primal, x.dual, x.objective)
  constraints_eq : p.constraints.values.map (fun c => (c.rhs, c.dual)) =
    q.constraints.values.map fun c => (c.rhs, c.dual)
  coefficients_eq : p.constraints.values.map (fun c => p.vars.handles.map c.coefficient) =
    q.constraints.values.map fun c => q.vars.handles.map c.coefficient

namespace Alike

variable {p q : Program α}

theorem map_vars (h : p.Alike q) {γ : Type} (view : α × α × α → γ) :
    p.vars.values.map (fun x => view (x.primal, x.dual, x.objective)) =
      q.vars.values.map fun x => view (x.primal, x.dual, x.objective) := by
  have hmap := congrArg (List.map view) h.variables_eq
  rwa [List.map_map, List.map_map] at hmap

theorem map_constraints (h : p.Alike q) {γ : Type} (view : α × α → γ) :
    p.constraints.values.map (fun c => view (c.rhs, c.dual)) =
      q.constraints.values.map fun c => view (c.rhs, c.dual) := by
  have hmap := congrArg (List.map view) h.constraints_eq
  rwa [List.map_map, List.map_map] at hmap

theorem length_constraints (h : p.Alike q) :
    p.constraints.values.length = q.constraints.values.length := by
  simpa using congrArg List.length h.constraints_eq

theorem length_handles (h : p.Alike q) : p.vars.handles.length = q.vars.handles.length := by
  simpa using congrArg List.length h.variables_eq

theorem coefficient_eq (h : p.Alike q) {r i : Nat} {c d : Constraint α} {v w : VariableId}
    (hc : p.constraints.values[r]? = some c) (hd : q.constraints.values[r]? = some d)
    (hv : p.vars.handles[i]? = some v) (hw : q.vars.handles[i]? = some w) :
    c.coefficient v = d.coefficient w := by
  have hrow := congrArg (·[r]?) h.coefficients_eq
  simp only [List.getElem?_map, hc, hd, Option.map_some, Option.some.injEq] at hrow
  have hentry := congrArg (·[i]?) hrow
  simpa only [List.getElem?_map, hv, hw, Option.map_some, Option.some.injEq] using hentry

theorem columnEntries_eq (h : p.Alike q) {i : Nat} {v w : VariableId}
    (hv : p.vars.handles[i]? = some v) (hw : q.vars.handles[i]? = some w) :
    p.columnEntries v = q.columnEntries w := by
  have hrows : p.constraints.values.zipIdx.map (fun t => (t.1.coefficient v).map (t.2, ·)) =
      q.constraints.values.zipIdx.map fun t => (t.1.coefficient w).map (t.2, ·) := by
    refine List.ext_getElem (by simpa using h.length_constraints) ?_
    intro r hr hr'
    rw [List.length_map, List.length_zipIdx] at hr hr'
    simp only [List.getElem_map, List.getElem_zipIdx]
    rw [h.coefficient_eq (List.getElem?_eq_getElem hr) (List.getElem?_eq_getElem hr') hv hw]
  have hentries := congrArg (List.filterMap id) hrows
  rw [List.filterMap_map, List.filterMap_map] at hentries
  exact hentries

theorem exported_eq (h : p.Alike q) (hp : p.Coherent) (hq : q.Coherent) :
    p.exported = q.exported := by
  have hcount : p.constraintCount = q.constraintCount := by
    simpa [constraintCount] using h.length_constraints
  have hcolumns : p.columnOrder.map p.columnEntries = q.columnOrder.map q.columnEntries := by
    rw [hp.columnOrder_eq, hq.columnOrder_eq]
    refine List.ext_getElem (by simpa using h.length_handles) ?_
    intro i hi hi'
    rw [List.length_map] at hi hi'
    rw [List.getElem_map, List.getElem_map]
    exact h.columnEntries_eq (List.getElem?_eq_getElem hi) (List.getElem?_eq_getElem hi')
  have hA : p.exported.A = q.exported.A := by
    rw [hp.exported_A, hq.exported_A, hcount, hcolumns]
  have hx := h.map_vars fun t => t.1
  have hs := h.map_vars fun t => t.2.1
  have hc := h.map_vars fun t => t.2.2
  have hb := h.map_constraints fun t => t.1
  have hw := h.map_constraints fun t => t.2
  dsimp only at hx hs hc hb hw
  change (⟨p.exported.A, _, _, _, _, _⟩ : Matrices α) = ⟨q.exported.A, _, _, _, _, _⟩
  rw [hA, hb, hc, hx, hs, hw]

end Alike

end Program

end Socp
