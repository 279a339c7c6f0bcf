import LedgerWire.Json.Printer
import LedgerWire.Registry.WireType
import LedgerWire.Wire.Cursor

namespace LedgerWire

def Json.text (type : String) (expected : Shape) (json : Json) : Except Error String :=
  match json with
  | .string text => .ok text
  | _ => .error (.wrongShape type expected)

def hexBytes (type : String) (text : String) : Except Error Bytes :=
  match Hex.decode text with
  | .ok bytes => .ok bytes
  | .error flaw => .error (.malformed type (.hex flaw text))

def exactly (type : String) (n : Nat) (bytes : Bytes) : Except Error (Octets n) :=
  match Octets.ofBytes? n bytes with
  | some octets => .ok octets
  | none => .error (.wrongLength type n bytes.length)

/-- A length announced by a prefix has to be the length of the value. -/
def checkLength (type : String) (expected : Nat) : Option Nat → Reader Unit
  | none => pure ()
  | some announced =>
    if announced = expected then pure () else throw (.wrongLength type expected announced)

end LedgerWire
