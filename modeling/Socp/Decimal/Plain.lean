import Socp.Decimal.Shortest

/-!
Numbers written out in full, without an exponent: the shortest digits that read back, with zeros
up to the units place and no point after a whole number.
-/

namespace Socp.Decimal

def zeros (n : Nat) : String := "".pushn '0' n

def Significand.plain (s : Significand) : String :=
  let digits := toString s.digits
  match s.exponent with
  | .ofNat e => digits ++ zeros e
  | .negSucc e =>
    let places := e + 1
    let padded := (zeros (places + 1 - digits.length) ++ digits).toList
    String.ofList (padded.take (padded.length - places)) ++ "." ++
      String.ofList (padded.drop (padded.length - places))

def plain (x : Float) : String :=
  let bits := x.toBits.toNat
  let biased := bits / Nat.pow 2 52 % Nat.pow 2 11
  let mantissa := bits % Nat.pow 2 52
  if biased = 2047 ∧ mantissa ≠ 0 then "NaN"
  else
    let sign := if bits / Nat.pow 2 63 = 1 then "-" else ""
    if biased = 2047 then sign ++ "inf"
    else if biased = 0 ∧ mantissa = 0 then sign ++ "0"
    else sign ++ (RoundingInterval.ofFields biased mantissa).shortest.plain

end Socp.Decimal
