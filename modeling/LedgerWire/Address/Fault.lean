import LedgerWire.Base58
import LedgerWire.Hex

namespace LedgerWire.Address

inductive TaggedFlaw
  | bodyLength (actual : Nat)
  | wideTag
  | unflaggedTag
  | unknownFlag (flag : UInt8)
deriving DecidableEq, Repr

inductive Fault
  | base58 (flaw : Base58.Flaw)
  | checksum
  | length (expected actual : Nat)
  | version (found : Bytes)
  | tagged (flaw : TaggedFlaw)
deriving DecidableEq, Repr

def base58Message : Base58.Flaw → String
  | .invalidCharacter c position =>
    "provided string contained invalid character " ++ Text.quotedSingle c ++
      " at byte " ++ toString position
  | .nonAscii position =>
    "provided string contained non-ascii character starting at byte " ++ toString position

def TaggedFlaw.message : TaggedFlaw → String
  | .bodyLength actual => "body is " ++ toString actual ++ " bytes, expected 31"
  | .wideTag => "64-bit tags are not supported"
  | .unflaggedTag => "tag bytes set without tag flag"
  | .unknownFlag flag =>
    "unsupported flag byte 0x" ++
      (if flag < 16 then "0" else "") ++ String.ofList (Text.lowerHex flag.toNat)

def Fault.message : Fault → String
  | .base58 flaw => "invalid base58 text: " ++ base58Message flaw
  | .checksum => "checksum mismatch"
  | .length expected actual =>
    "payload length " ++ toString actual ++ " does not match expected " ++ toString expected
  | .version found =>
    "unexpected version prefix [" ++ ", ".intercalate (found.map fun b => Hex.encode [b]) ++ "]"
  | .tagged flaw => "invalid X-address: " ++ flaw.message

end LedgerWire.Address
