/-!
The shortest decimal that reads back as a given binary number. A finite double is a whole
number of quarter steps; every real inside its rounding interval reads back as that double, so
the digits are found by trying the two decimals next to it on finer and finer grids.
-/

namespace Socp.Decimal

/-- A positive fraction; both parts are positive. -/
structure Fraction where
  num : Nat
  den : Nat

/-- `m * b ^ e` for a whole exponent of either sign. -/
def Fraction.scaled (m b : Nat) : Int → Fraction
  | .ofNat e => ⟨m * b.pow e, 1⟩
  | .negSucc e => ⟨m, b.pow (e + 1)⟩

def Fraction.lt (x y : Fraction) : Bool := x.num * y.den < y.num * x.den

def Fraction.le (x y : Fraction) : Bool := x.num * y.den ≤ y.num * x.den

/-- The reals that round to `mid`: those from `low` to `high`, which count only if `closed`. -/
structure RoundingInterval where
  low : Fraction
  mid : Fraction
  high : Fraction
  closed : Bool

def RoundingInterval.contains (r : RoundingInterval) (x : Fraction) : Bool :=
  if r.closed then r.low.le x && x.le r.high else r.low.lt x && x.lt r.high

/-- A positive number as `digits * 10 ^ exponent`. -/
structure Significand where
  digits : Nat
  exponent : Int
deriving Repr, DecidableEq

def Significand.value (s : Significand) : Fraction := .scaled s.digits 10 s.exponent

def digitCount (n : Nat) : Nat := (Nat.toDigits 10 n).length

/-- The power of ten of the leading digit. -/
def Fraction.magnitude (x : Fraction) : Int :=
  let e : Int := digitCount x.num - digitCount x.den
  if (Fraction.scaled 1 10 e).le x then e else e - 1

/-- The multiple of `10 ^ e` that is next below, or equal. -/
def Fraction.floorAt (x : Fraction) (e : Int) : Significand :=
  let step := Fraction.scaled 1 10 e
  ⟨x.num * step.den / (x.den * step.num), e⟩

/-- The next number with `n` digits. After the last one of a decade comes the first of the decade
above, whose grid is coarser. -/
def Significand.next (s : Significand) (n : Nat) : Significand :=
  if s.digits + 1 = Nat.pow 10 n then ⟨Nat.pow 10 (n - 1), s.exponent + 1⟩
  else ⟨s.digits + 1, s.exponent⟩

/-- Whether `x` lies at or above the middle of `[s, s + 1]` on the grid of `s`. -/
def Fraction.roundsUp (x : Fraction) (s : Significand) : Bool :=
  (Fraction.scaled (2 * s.digits + 1) 10 s.exponent).le ⟨2 * x.num, x.den⟩

/-- The decimal with `n` digits that lies in the interval, the nearer one if there are two. -/
def RoundingInterval.withDigits? (r : RoundingInterval) (n : Nat) : Option Significand :=
  let below := r.mid.floorAt (r.mid.magnitude + 1 - n)
  let above := below.next n
  match r.contains below.value, r.contains above.value with
  | true, true => some (if r.mid.roundsUp below then above else below)
  | true, false => some below
  | false, true => some above
  | false, false => none

/-- Seventeen digits tell any two doubles apart, so the search ends at that grid. -/
def RoundingInterval.shortest (r : RoundingInterval) : Significand :=
  ((List.range' 1 17).findSome? r.withDigits?).getD (r.mid.floorAt (r.mid.magnitude - 16))

/-- The interval of the positive double with these fields. The step below a power of two is half
as wide as the one above it. -/
def RoundingInterval.ofFields (biased mantissa : Nat) : RoundingInterval :=
  let m := if biased = 0 then mantissa else mantissa + Nat.pow 2 52
  let e : Int := (if biased = 0 then 1 else biased) - 1077
  let stepBelow := if mantissa = 0 ∧ 1 < biased then 1 else 2
  { low := .scaled (4 * m - stepBelow) 2 e
    mid := .scaled (4 * m) 2 e
    high := .scaled (4 * m + 2) 2 e
    closed := m % 2 = 0 }

end Socp.Decimal
