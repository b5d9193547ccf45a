/-!
Numbers that a program can be written over. Only the operations are assumed, no law relating
them, so one definition serves rounded binary formats and exact fields alike.
-/

namespace Socp

/-- Arithmetic with comparisons, in which some values may have no place in the order. -/
class Scalar (α : Type) extends Zero α, One α, Add α, Sub α, Mul α, Div α, Neg α, BEq α, LE α,
    LT α where
  decidableLE : DecidableLE α
  decidableLT : DecidableLT α
  abs : α → α
  sqrt : α → α
  isNaN : α → Bool
  isFinite : α → Bool
  /-- One half. -/
  half : α
  /-- The feasibility tolerance of a program that was given none. -/
  defaultTolerance : α

namespace Scalar

variable {α : Type} [Scalar α]

instance : DecidableLE α := decidableLE

instance : DecidableLT α := decidableLT

def two : α := 1 + 1

/-- The larger of two values; an unordered operand gives way to the other one. -/
def maxNum (a b : α) : α :=
  if isNaN a then b else if isNaN b then a else if a < b then b else a

/-- The smaller of two values; an unordered operand gives way to the other one. -/
def minNum (a b : α) : α :=
  if isNaN a then b else if isNaN b then a else if b < a then b else a

end Scalar

end Socp
