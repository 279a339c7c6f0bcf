
namespace LedgerWire

/-- The magnitude `mantissa * 2 ^ exponent` of a finite double. The mantissa has 53 bits, or fewer
at the least exponent, -1074. -/
structure Magnitude where
  mantissa : Nat
  exponent : Int
deriving DecidableEq, Repr

structure Binary64 where
  negative : Bool
  magnitude : Magnitude
deriving DecidableEq, Repr

namespace Magnitude

def mantissaLimit : Nat := 9007199254740992

def zero : Magnitude := ⟨0, -1074⟩

def isZero (x : Magnitude) : Bool := x.mantissa == 0

def num (x : Magnitude) : Nat := x.mantissa * Nat.pow 2 x.exponent.toNat

def den (x : Magnitude) : Nat := Nat.pow 2 (-x.exponent).toNat

def divRound (num den : Nat) : Nat :=
  let quotient := num / den
  let rest := num % den
  if 2 * rest < den then quotient
  else if den < 2 * rest then quotient + 1
  else quotient + quotient % 2

/-- The magnitude nearest to a quotient of positive numbers, a half to the even neighbour;
nothing when it lies beyond the largest finite one. -/
def ofQuotient? (num den : Nat) : Option Magnitude :=
  if num = 0 then some zero else
  let bits : Int := (num.log2 : Int) - den.log2
  let floor (e : Int) : Nat := (num * Nat.pow 2 (-e).toNat) / (den * Nat.pow 2 e.toNat)
  let low := bits - 53
  let e := max (-1074) (if floor low < mantissaLimit then low else low + 1)
  let m := divRound (num * Nat.pow 2 (-e).toNat) (den * Nat.pow 2 e.toNat)
  let (m, e) := if m = mantissaLimit then (m / 2, e + 1) else (m, e)
  if e ≤ 971 then some ⟨m, e⟩ else none

def mul? (x y : Magnitude) : Option Magnitude :=
  ofQuotient? (x.num * y.num) (x.den * y.den)

def div? (x y : Magnitude) : Option Magnitude :=
  ofQuotient? (x.num * y.den) (x.den * y.num)

def powerOfTen (exponent : Nat) : Magnitude :=
  (ofQuotient? (Nat.pow 10 exponent) 1).getD zero

def scaleDown : (times : Nat) → Magnitude → Magnitude
  | 0, x => x
  | times + 1, x =>
    if x.isZero then x else scaleDown times ((x.div? (powerOfTen 308)).getD zero)

def divPowerOfTen (x : Magnitude) (exponent : Nat) : Magnitude :=
  let times := (exponent - 1) / 308
  ((scaleDown times x).div? (powerOfTen (exponent - 308 * times))).getD zero

/-- A decimal `significand * 10 ^ exponent` as a double. The significand and the power of ten are
each rounded first, then their product or quotient; nothing when that is beyond the finite range. -/
def ofDecimal? (significand : Nat) (exponent : Int) : Option Magnitude :=
  match ofQuotient? significand 1 with
  | none => none
  | some x =>
    if exponent < 0 then some (x.divPowerOfTen exponent.natAbs)
    else if x.isZero then some x
    else if exponent ≤ 308 then x.mul? (powerOfTen exponent.toNat)
    else none

end Magnitude
end LedgerWire
