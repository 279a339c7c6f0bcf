import LedgerWire.Leaf.Basic
import LedgerWire.Registry.Basic

namespace LedgerWire

inductive Value
  | leaf (value : Leaf)
  | object (bytes : Bytes)
  | array (bytes : Bytes)
deriving DecidableEq, Repr

def Value.toBytes : Value → Bytes
  | .leaf value => value.toBytes
  | .object bytes => bytes
  | .array bytes => bytes

def objectEnd : UInt8 := 0xE1

def objectEndName : String := "ObjectEndMarker"

def arrayEnd : UInt8 := 0xF1

def arrayEndName : String := "ArrayEndMarker"

/-- The fields of 64-bit integers that JSON writes in base 10. -/
def decimalFields : List String :=
  ["MaximumAmount", "OutstandingAmount", "MPTAmount", "LockedAmount"]

end LedgerWire
