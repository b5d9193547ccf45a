import Socp.Handle
import Socp.Dense

/-!
The cones that variables live in. A cone is known by its variables in the order of their creation;
whether a point lies in it is read off a margin computed from the values in that order.
-/

namespace Socp

inductive ConeKind
  | orthant
  | secondOrder
  | rotated
deriving DecidableEq, Repr

namespace ConeKind

def all : List ConeKind := [.orthant, .secondOrder, .rotated]

/-- The fewest variables a cone of this kind can have. -/
def minDim : ConeKind → Nat
  | .orthant => 1
  | .secondOrder => 1
  | .rotated => 2

def name : ConeKind → String
  | .orthant => "NonNegativeOrthantCone"
  | .secondOrder => "SecondOrderCone"
  | .rotated => "RotatedSecondOrderCone"

variable {α : Type} [Scalar α]

/-- The membership margin of a point: the value itself for the orthant, `x_n - ‖(x_1, …)‖` for the
second-order cone, and the least of `x_1`, `x_2` and `2 x_1 x_2 - x_3² - …` for the rotated one. -/
def margin? : ConeKind → List α → Option α
  | .orthant, [x] => some x
  | .orthant, _ => none
  | .secondOrder, xs => xs.getLast?.map fun apex => apex - Dense.norm xs.dropLast
  | .rotated, x :: y :: inner =>
    let gap := Scalar.two * x * y - Dense.sumSq inner
    some (Scalar.minNum (Scalar.minNum x y) gap)
  | .rotated, _ => none

end ConeKind

/-- A cone and the variables it owns. The apex of a second-order cone comes after its inner
variables, those of a rotated cone come before them. -/
inductive Cone
  | orthant (x : VariableId)
  | secondOrder (inner : List VariableId) (apex : VariableId)
  | rotated (first second : VariableId) (inner : List VariableId)
deriving DecidableEq, Repr

namespace Cone

def ofVariables? : ConeKind → List VariableId → Option Cone
  | .orthant, [x] => some (.orthant x)
  | .orthant, _ => none
  | .secondOrder, vs => vs.getLast?.map (.secondOrder vs.dropLast)
  | .rotated, u :: v :: inner => some (.rotated u v inner)
  | .rotated, _ => none

def kind : Cone → ConeKind
  | .orthant _ => .orthant
  | .secondOrder _ _ => .secondOrder
  | .rotated _ _ _ => .rotated

def vars : Cone → List VariableId
  | .orthant x => [x]
  | .secondOrder inner apex => inner ++ [apex]
  | .rotated u v inner => u :: v :: inner

/-- The variables that dominate the rest. -/
def apex : Cone → List VariableId
  | .orthant x => [x]
  | .secondOrder _ a => [a]
  | .rotated u v _ => [u, v]

def dim (c : Cone) : Nat := c.vars.length

/-- The degree of the barrier function. -/
def degree (_ : Cone) : Nat := 1

variable {α : Type} [Scalar α]

/-- The margin at values given one per variable. -/
def margin? (c : Cone) (values : List α) : Option α :=
  if values.length = c.dim then c.kind.margin? values else none

def contains? (c : Cone) (values : List α) (tol : α) : Option Bool :=
  (c.margin? values).map fun m => decide (-tol ≤ m)

theorem minDim_le_dim (c : Cone) : c.kind.minDim ≤ c.dim := by
  cases c <;> simp [kind, ConeKind.minDim, dim, vars]

theorem ofVariables?_vars (c : Cone) : ofVariables? c.kind c.vars = some c := by
  cases c <;> simp [kind, vars, ofVariables?]

theorem vars_of_ofVariables? {kind : ConeKind} {vs : List VariableId} {c : Cone}
    (h : ofVariables? kind vs = some c) : c.kind = kind ∧ c.vars = vs := by
  cases kind with
  | orthant =>
    match vs, h with
    | [x], h =>
      cases h
      exact ⟨rfl, rfl⟩
  | secondOrder =>
    obtain ⟨a, ha, rfl⟩ := Option.map_eq_some_iff.1 h
    obtain ⟨inner, rfl⟩ := List.getLast?_eq_some_iff.1 ha
    simp [Cone.kind, vars]
  | rotated =>
    match vs, h with
    | u :: v :: inner, h =>
      cases h
      exact ⟨rfl, rfl⟩

end Cone

end Socp
