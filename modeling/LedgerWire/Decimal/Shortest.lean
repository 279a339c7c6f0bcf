import LedgerWire.Decimal.Binary64

/-!
The shortest decimal that reads back as a given double: the fewest digits for which a decimal lies
among the reals that round to the double, and of two such decimals the nearer.
-/

namespace LedgerWire.Magnitude

/-- The reals that round to a magnitude, in quarters of its last place: from `low` to `high`, the
ends included for an even mantissa. Below a power of two the spacing is half as wide. -/
def low (x : Magnitude) : Nat :=
  if x.mantissa = mantissaLimit / 2 ∧ -1074 < x.exponent then 4 * x.mantissa - 1
  else 4 * x.mantissa - 2

def high (x : Magnitude) : Nat := 4 * x.mantissa + 2

def roundsTo (x : Magnitude) (coefficient : Nat) (exponent : Int) : Bool :=
  let point := coefficient * Nat.pow 10 exponent.toNat * Nat.pow 2 (2 - x.exponent).toNat
  let unit := Nat.pow 10 (-exponent).toNat * Nat.pow 2 (x.exponent - 2).toNat
  if x.mantissa % 2 = 0 then x.low * unit ≤ point ∧ point ≤ x.high * unit
  else x.low * unit < point ∧ point < x.high * unit

def leadingExponent (x : Magnitude) : Int :=
  ((Nat.toDigits 10 (x.num * Nat.pow 10 400 / x.den)).length : Int) - 401

/-- The better of the two neighbours of the magnitude on the grid of multiples of
`10 ^ exponent`, if one of them rounds to it. A tie goes to the even coefficient. -/
def onGrid? (x : Magnitude) (exponent : Int) : Option Nat :=
  let top := x.num * Nat.pow 10 (-exponent).toNat
  let unit := x.den * Nat.pow 10 exponent.toNat
  let below := top / unit
  let rest := top % unit
  let nearer := 2 * rest < unit || (2 * rest == unit && below % 2 == 0)
  match x.roundsTo below exponent, x.roundsTo (below + 1) exponent with
  | true, true => some (if nearer then below else below + 1)
  | true, false => some below
  | false, true => some (below + 1)
  | false, false => none

def shortest (x : Magnitude) : Nat × Int :=
  let lead := x.leadingExponent
  let hits := (List.range 17).findSome? fun (digits : Nat) =>
    (x.onGrid? (lead - digits)).map fun coefficient => (coefficient, lead - digits)
  hits.getD (0, 0)

end LedgerWire.Magnitude
