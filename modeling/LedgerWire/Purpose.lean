import LedgerWire.Bytes

namespace LedgerWire

inductive Purpose
  | signing
  | channelClaim
  | multisigning
  | identifier
deriving DecidableEq, Repr

def Purpose.bytes : Purpose → Bytes
  | .signing => [0x53, 0x54, 0x58, 0x00]
  | .channelClaim => [0x43, 0x4C, 0x4D, 0x00]
  | .multisigning => [0x53, 0x4D, 0x54, 0x00]
  | .identifier => [0x54, 0x58, 0x4E, 0x00]

end LedgerWire
