import LedgerWire.Decimal.Positional
import LedgerWire.Error
import LedgerWire.Text.Digits

/-!
Decimals as texts write them: an optional sign, digits with an optional point and at least one digit
on one of its sides, and an optional exponent. A decimal is kept as a coefficient without zeros at
its end and an exponent of ten.
-/

namespace LedgerWire

/-- The number `± coefficient * 10 ^ exponent`; a coefficient other than zero does not end in zero,
and zero has exponent zero. -/
structure Decimal where
  negative : Bool
  coefficient : Nat
  exponent : Int
deriving DecidableEq, Repr

namespace Decimal

def takeSign : List Char → Bool × List Char
  | '-' :: rest => (true, rest)
  | '+' :: rest => (false, rest)
  | text => (false, text)

def inRange (n : Int) : Bool := -9223372036854775808 ≤ n && n < 9223372036854775808

structure Parts where
  negative : Bool
  whole : List Char
  fraction : List Char
  exponent : Int
deriving DecidableEq, Repr

def exponentOf? : List Char → Option Int
  | [] => some 0
  | c :: rest =>
    if c = 'e' ∨ c = 'E' then
      let (negative, digits) := takeSign rest
      if Text.isDigits digits then
        some (if negative then -Text.natOfDigits digits else Text.natOfDigits digits)
      else none
    else none

def parts? (text : List Char) : Option Parts :=
  let (negative, unsigned) := takeSign text
  let whole := unsigned.takeWhile Char.isDigit
  let (fraction, tail) := match unsigned.dropWhile Char.isDigit with
    | '.' :: rest => (rest.takeWhile Char.isDigit, rest.dropWhile Char.isDigit)
    | rest => ([], rest)
  if whole.isEmpty && fraction.isEmpty then none
  else (exponentOf? tail).map fun exponent => ⟨negative, whole, fraction, exponent⟩

def trailingZeros (n : Nat) : Nat :=
  if _h : 0 < n ∧ n % 10 = 0 then trailingZeros (n / 10) + 1 else 0
termination_by n
decreasing_by omega

/-- Reads a decimal text. The exponent it writes has to fit 64 bits, also after it is moved to the
last place of the fraction and then to the last place that is not zero. -/
def ofText? (text : String) : Option Decimal := do
  let parts ← parts? text.toList
  let exponent := parts.exponent - parts.fraction.length
  guard (inRange parts.exponent && inRange exponent)
  let n := Text.natOfDigits (parts.whole ++ parts.fraction)
  if n = 0 then return ⟨parts.negative, 0, 0⟩
  let zeros := trailingZeros n
  guard (inRange (exponent + zeros))
  return ⟨parts.negative, n / Nat.pow 10 zeros, exponent + zeros⟩

def isZero (d : Decimal) : Bool := d.coefficient == 0

def digitCount (d : Decimal) : Nat :=
  if d.coefficient = 0 then 0 else (Nat.toDigits 10 d.coefficient).length

def leadingExponent (d : Decimal) : Int :=
  d.exponent + (d.digitCount - 1)

def mantissaDigits : Nat := 16

/-- Mantissa and exponent of a decimal other than zero, the mantissa from `10 ^ 15` up and below
`10 ^ 16`. Fails when that would lose a digit other than zero. -/
def normalize (type : String) (d : Decimal) : Except Error (Nat × Int) :=
  let count := d.digitCount
  if count ≤ mantissaDigits then
    let shift := mantissaDigits - count
    .ok (d.coefficient * Nat.pow 10 shift, d.exponent - shift)
  else .error (.imprecise (.digits type count))

/-- A mantissa and an exponent as text: positional when the leading digit stands for `10 ^ -6` to
`10 ^ 20`, otherwise with an exponent, and without zeros at the end of the digits. -/
def render (negative : Bool) (mantissa : Nat) (exponent : Int) : String :=
  if mantissa = 0 then "0" else
  let all := Nat.toDigits 10 mantissa
  let (digits, _) := stripZeros all
  let lead := exponent + (all.length - 1)
  String.ofList <| (if negative then ['-'] else []) ++
    if -6 ≤ lead ∧ lead ≤ 20 then positional digits (lead + 1) else scientific digits lead

end Decimal
end LedgerWire
