import LedgerWire.Leaf.Hash
import LedgerWire.Leaf.Unsigned
import LedgerWire.Purpose

namespace LedgerWire

structure ChannelClaim where
  channel : Hash
  drops : Unsigned
deriving DecidableEq, Repr

namespace ChannelClaim

def typeName : String := "PaymentChannelClaim"

/-- Both members have to be there before either is read; the drops are written in base 10. -/
def ofJson (json : Json) : Except Error ChannelClaim := do
  let some channel := json.get? "channel" | .error (.wrongShape typeName .channelMember)
  let some amount := json.get? "amount" | .error (.wrongShape typeName .amountMember)
  return ⟨← Hash.ofJson .h256 channel, ← Unsigned.ofDecimalJson amount⟩

def signingBytes (claim : ChannelClaim) : Bytes :=
  Purpose.channelClaim.bytes ++ claim.channel.toBytes ++ claim.drops.toBytes

end ChannelClaim
end LedgerWire
