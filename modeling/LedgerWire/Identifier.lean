import LedgerWire.Codec
import LedgerWire.Digest.Sha512
import LedgerWire.Purpose

namespace LedgerWire

/-- Two texts spell one identifier: the case of ASCII letters does not matter. -/
def sameIdentifier (a b : String) : Bool :=
  a.toList.map Char.toLower == b.toList.map Char.toLower

namespace Registry
variable (registry : Registry)

def transactionId (json : Json) : Except Error String := do
  return Hex.encode (Digest.sha512Half (Purpose.identifier.bytes ++ (← registry.encode json)))

def verifyTransactionId (json : Json) (claimed : String) : Except Error Bool := do
  return sameIdentifier (← registry.transactionId json) claimed

end Registry
end LedgerWire
