import LedgerWire.Address.Fault
import LedgerWire.Digest.Sha256

/-!
Checksummed tokens. A body is sealed by the first four bytes of its double SHA-256 and written in
base 58; the body of a versioned token is a version followed by a payload of known length. A body
is never empty.
-/

namespace LedgerWire.Address

def checksumLength : Nat := 4

def checksum (body : Bytes) : Bytes :=
  (Digest.sha256 (Digest.sha256 body)).take checksumLength

def sealBody (body : Bytes) : String :=
  Base58.encode (body ++ checksum body)

def openBody (text : String) : Except Fault Bytes :=
  match Base58.decode text with
  | .error flaw => .error (.base58 flaw)
  | .ok bytes =>
    if bytes.length < checksumLength + 1 then
      .error (.length (checksumLength + 1) bytes.length)
    else
      let body := bytes.take (bytes.length - checksumLength)
      if checksum body = bytes.drop (bytes.length - checksumLength) then .ok body
      else .error .checksum

structure Token (n : Nat) where
  version : Bytes
  payload : Octets n
deriving DecidableEq, Repr

def encodeToken (version : Bytes) (length : Nat) (payload : Bytes) : Except Fault String :=
  if payload.length = length then .ok (sealBody (version ++ payload))
  else .error (.length length payload.length)

/-- Reads a token whose version is one of `versions`; the first that fits is taken. -/
def decodeToken (versions : List Bytes) (length : Nat) (text : String) :
    Except Fault (Token length) := do
  let body ← openBody text
  match versions.find? (·.isPrefixOf body) with
  | none =>
    let widest := (versions.map List.length).max?.getD 1
    .error (.version (body.take widest))
  | some version =>
    let payload := body.drop version.length
    if h : payload.length = length then .ok ⟨version, payload, h⟩
    else .error (.length length payload.length)

/-- The tokens with one version: account identifiers and the two public keys. -/
inductive Kind
  | account
  | nodePublic
  | accountPublic
deriving DecidableEq, Repr

def Kind.version : Kind → Bytes
  | .account => [0x00]
  | .nodePublic => [0x1C]
  | .accountPublic => [0x23]

def Kind.length : Kind → Nat
  | .account => 20
  | .nodePublic => 33
  | .accountPublic => 33

def Kind.encode (kind : Kind) (payload : Bytes) : Except Fault String :=
  encodeToken kind.version kind.length payload

def Kind.decode (kind : Kind) (text : String) : Except Fault (Octets kind.length) :=
  (decodeToken [kind.version] kind.length text).map Token.payload

inductive SeedAlgorithm
  | secp256k1
  | ed25519
deriving DecidableEq, Repr

def SeedAlgorithm.version : SeedAlgorithm → Bytes
  | .secp256k1 => [0x21]
  | .ed25519 => [0x01, 0xE1, 0x4B]

def seedLength : Nat := 16

def encodeSeed (algorithm : SeedAlgorithm) (entropy : Bytes) : Except Fault String :=
  encodeToken algorithm.version seedLength entropy

def decodeSeed (text : String) : Except Fault (SeedAlgorithm × Octets seedLength) := do
  let versions := [SeedAlgorithm.ed25519.version, SeedAlgorithm.secp256k1.version]
  let token ← decodeToken versions seedLength text
  let algorithm := if token.version = SeedAlgorithm.ed25519.version then .ed25519 else .secp256k1
  return (algorithm, token.payload)

end LedgerWire.Address
