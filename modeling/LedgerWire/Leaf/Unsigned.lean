import LedgerWire.Leaf.Text
import LedgerWire.Text.Digits

namespace LedgerWire

structure Unsigned where
  width : Width
  value : Nat
  fits : value < capacity width.bytes
deriving DecidableEq, Repr

namespace Unsigned

def largest (width : Width) : Nat := capacity width.bytes - 1

def ofNat (width : Width) (value : Nat) : Except Error Unsigned :=
  if h : value < capacity width.bytes then .ok ⟨width, value, h⟩
  else .error (.malformed width.typeName (.exceeds value (largest width)))

def order (a b : Unsigned) : Ordering := compare a.value b.value

/-- Reads decimal digits; a number beyond 64 bits is too large before the width is asked. -/
def ofDigits (width : Width) (text : String) : Except Error Unsigned :=
  let digits := text.toList
  let value := Text.natOfDigits digits
  if !Text.isDigits digits then .error (.malformed width.typeName (.notDigits text))
  else if value < capacity 8 then ofNat width value
  else .error (.malformed width.typeName (.tooLarge text))

def ofNumeral (width : Width) : Numeral → Except Error Unsigned
  | .integer (.ofNat value) => ofNat width value
  | number => .error (.malformed width.typeName (.notNatural number.text))

def ofHex (text : String) : Except Error Unsigned :=
  let digits := text.toList
  match Hex.natOfDigits? digits with
  | some value =>
    if 1 ≤ digits.length ∧ digits.length ≤ 16 then ofNat .eight value
    else .error (.malformed Width.eight.typeName (.notShortHex text))
  | none => .error (.malformed Width.eight.typeName (.notShortHex text))

def ofJson (width : Width) (json : Json) : Except Error Unsigned :=
  match width, json with
  | _, .number number => ofNumeral width number
  | .eight, .string text => ofHex text
  | .four, .string text => ofDigits .four text
  | .eight, _ => .error (.wrongShape width.typeName .hexOrNatural)
  | _, _ => .error (.wrongShape width.typeName .natural)

def ofDecimalJson : Json → Except Error Unsigned
  | .string text => ofDigits .eight text
  | .number number => ofNumeral .eight number
  | _ => .error (.wrongShape Width.eight.typeName .decimalDigits)

def toBytes (u : Unsigned) : Bytes := beBytes u.width.bytes u.value

def read (width : Width) (announced : Option Nat) : Reader Unsigned := do
  checkLength width.typeName width.bytes announced
  let octets ← Reader.octets width.bytes
  return ⟨width, beValue octets.val, by simpa [octets.property] using beValue_lt octets.val⟩

def toJson (u : Unsigned) : Json :=
  match u.width with
  | .eight => .string (Hex.encode u.toBytes)
  | _ => Json.ofNat u.value

end Unsigned
end LedgerWire
