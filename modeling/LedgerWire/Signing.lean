import LedgerWire.Codec
import LedgerWire.Purpose

namespace LedgerWire.Registry
variable (registry : Registry)

def encodeForSigning (json : Json) : Except Error Bytes := do
  return Purpose.signing.bytes ++ (← registry.fieldBytes true json)

/-- What one of several signers signs. The public key of the transaction has to be there and
empty. -/
def encodeForMultisigning (json : Json) (signer : String) : Except Error Bytes := do
  if (json.get? "SigningPubKey").bind Json.string? ≠ some "" then .error .signingKeyNotEmpty
  let signer ← AccountId.ofText signer
  return Purpose.multisigning.bytes ++ (← registry.fieldBytes true json) ++ signer.bytes

end LedgerWire.Registry
