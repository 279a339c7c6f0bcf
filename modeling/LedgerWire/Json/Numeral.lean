import LedgerWire.Json.Basic
import LedgerWire.Text.Digits

/-!
Numbers in JSON text. An integer that fits 64 bits is read exactly, any other number as a double:
the digits that fit 64 bits are its significand, and further ones count for their places only.
-/

namespace LedgerWire.Json

/-- The largest significand kept while the digits of a number are read. -/
def largestSignificand : Nat := 18446744073709551615

/-- The digits before the point: those that fit the significand, and the number of the others. -/
def wholeDigits (significand : Nat) : List Char → Nat × Nat
  | [] => (significand, 0)
  | c :: rest =>
    let next := 10 * significand + (c.toNat - '0'.toNat)
    if next ≤ largestSignificand then wholeDigits next rest else (significand, rest.length + 1)

def fractionDigits (significand taken : Nat) : List Char → Nat × Nat
  | [] => (significand, taken)
  | c :: rest =>
    let next := 10 * significand + (c.toNat - '0'.toNat)
    if next ≤ largestSignificand then fractionDigits next (taken + 1) rest
    else (significand, taken)

/-- The exponent part of a number, if one follows: its sign, its digits, and the rest. A mark
without digits is refused. -/
def exponentPart : List Char → Option (Option (Bool × Nat) × List Char)
  | c :: rest =>
    if c = 'e' ∨ c = 'E' then
      let (negative, rest) := match rest with
        | '+' :: rest => (false, rest)
        | '-' :: rest => (true, rest)
        | _ => (false, rest)
      let digits := rest.takeWhile Char.isDigit
      if digits.isEmpty then none
      else some (some (negative, Text.natOfDigits digits),
        rest.dropWhile Char.isDigit)
    else some (none, c :: rest)
  | [] => some (none, [])

/-- The exponents from here on are out of range, whatever the digits in front of them. -/
def exponentLimit : Nat := 2147483648

def real? (negative : Bool) (significand : Nat) (shift : Int) (exponent : Option (Bool × Nat)) :
    Option Numeral :=
  let magnitude := match exponent with
    | none => Magnitude.ofDecimal? significand shift
    | some (false, e) =>
      if exponentLimit ≤ e then (if significand = 0 then some Magnitude.zero else none)
      else Magnitude.ofDecimal? significand (shift + e)
    | some (true, e) =>
      if exponentLimit ≤ e then some Magnitude.zero
      else Magnitude.ofDecimal? significand (shift - e)
  magnitude.map fun m => .real ⟨negative, m⟩

/-- An integer stays one when it fits 64 bits; minus zero and wider integers become doubles. -/
def integer? (negative : Bool) (significand : Nat) (dropped : Nat) : Option Numeral :=
  if dropped = 0 ∧ !negative then some (.integer significand)
  else if dropped = 0 ∧ 0 < significand ∧ significand ≤ 9223372036854775808 then
    some (.integer (-significand))
  else real? negative significand dropped none

/-- The number at the front of a text whose sign has been read: nothing where the grammar has no
number, and a number without a value beyond the doubles. -/
def unsigned (negative : Bool) (text : List Char) : Option (Option Numeral × List Char) := do
  let whole := text.takeWhile Char.isDigit
  let rest := text.dropWhile Char.isDigit
  guard (!whole.isEmpty && (whole.length == 1 || whole.head? != some '0'))
  let (significand, dropped) := wholeDigits 0 whole
  match rest with
  | '.' :: rest =>
    let fraction := rest.takeWhile Char.isDigit
    guard !fraction.isEmpty
    let (significand, places) := fractionDigits significand 0 fraction
    let (exponent, rest) ← exponentPart (rest.dropWhile Char.isDigit)
    return (real? negative significand (dropped - places) exponent, rest)
  | _ =>
    match ← exponentPart rest with
    | (none, rest) => return (integer? negative significand dropped, rest)
    | (some exponent, rest) => return (real? negative significand dropped (some exponent), rest)

def numeral : List Char → Option (Option Numeral × List Char)
  | '-' :: rest => unsigned true rest
  | text => unsigned false text

end LedgerWire.Json
