import LedgerWire.Decimal.Basic
import LedgerWire.Leaf.Text

/-!
Numbers: a signed mantissa of 8 bytes and a signed exponent of 4. Zero has mantissa zero and the
least exponent of all. A value too small for the exponents becomes zero.
-/

namespace LedgerWire

structure Quantity where
  mantissa : Int64
  exponent : Int32
deriving DecidableEq, Repr

namespace Quantity

def typeName : String := LeafType.number.name

def zero : Quantity := ⟨0, Int32.minValue⟩

def isZero (q : Quantity) : Bool := q.mantissa == 0

def minExponent : Int := -32768

def maxExponent : Int := 32768

def ofText (text : String) : Except Error Quantity := do
  let some decimal := Decimal.ofText? text
    | .error (.malformed typeName (.notDecimal text))
  if decimal.isZero then return zero
  let (mantissa, exponent) ← decimal.normalize typeName
  if maxExponent < exponent then .error (.overflow (.number text))
  if exponent < minExponent then return zero
  let signed : Int := if decimal.negative then -mantissa else mantissa
  return ⟨Int64.ofInt signed, Int32.ofInt exponent⟩

/-- A JSON number is read through its text. -/
def ofJson : Json → Except Error Quantity
  | .string text => ofText text
  | .number number => ofText number.text
  | _ => .error (.wrongShape typeName .decimal)

def toBytes (q : Quantity) : Bytes :=
  beBytes 8 q.mantissa.toUInt64.toNat ++ beBytes 4 q.exponent.toUInt32.toNat

def read (announced : Option Nat) : Reader Quantity := do
  checkLength typeName 12 announced
  let octets ← Reader.octets 12
  let mantissa := UInt64.ofNat (beValue (octets.val.take 8))
  let exponent := UInt32.ofNat (beValue (octets.val.drop 8))
  return ⟨mantissa.toInt64, exponent.toInt32⟩

def toJson (q : Quantity) : Json :=
  if q.isZero then .string "0"
  else .string (toString q.mantissa.toInt ++ "e" ++ toString q.exponent.toInt)

end Quantity
end LedgerWire
