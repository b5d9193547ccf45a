import Socp.Program.Residual
import Socp.Proofs.Lists

/-!
The stored primal values as a point. Sums over live variables, and lists of their values, are read
off the point without a failure.
-/

namespace Socp

namespace Program

variable {α : Type} {p : Program α}

/-- The stored primal value of a variable, zero for one that is not live. -/
def point [Zero α] (p : Program α) (v : VariableId) : α :=
  match p.findVariable v with
  | .ok x => x.primal
  | .error _ => 0

theorem point_eq [Zero α] {v : VariableId} {x : Variable α} (hx : p.findVariable v = .ok x) :
    p.point v = x.primal := by
  rw [point, hx]

theorem foldlM_point [Zero α] [Add α] [Mul α] {ι : Type} (weight : ι → α) (var : ι → VariableId)
    {l : List ι} (hlive : ∀ i ∈ l, ∃ x, p.findVariable (var i) = .ok x) (start : α) :
    l.foldlM (fun total i => do return total + weight i * (← p.findVariable (var i)).primal) start =
      .ok ((l.map fun i => weight i * p.point (var i)).foldl (· + ·) start) := by
  induction l generalizing start with
  | nil => rfl
  | cons i l ih =>
      obtain ⟨x, hx⟩ := hlive i List.mem_cons_self
      have hrest := ih fun j hj => hlive j (List.mem_cons_of_mem i hj)
      rw [List.foldlM_cons, hx, List.map_cons, List.foldl_cons, point_eq hx]
      exact hrest (start + weight i * x.primal)

theorem primalValues_eq [Zero α] {vs : List VariableId}
    (hlive : ∀ v ∈ vs, ∃ x, p.findVariable v = .ok x) :
    p.primalValues vs = .ok (vs.map p.point) := by
  refine mapM_eq_pure ?_
  intro v hv
  obtain ⟨x, hx⟩ := hlive v hv
  change p.vars.find v = .ok x at hx
  rw [hx, point_eq hx]
  rfl

end Program

end Socp
