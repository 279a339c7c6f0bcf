import LedgerWire.Leaf.Account
import LedgerWire.Leaf.Currency

/-!
Assets: the native one, an issued currency, or a token issuance. On the wire the native asset is 20
zero bytes; an issued currency is its code and its issuer; a token issuance is its issuer, a
reserved account in the place of the issuer, and its sequence number with the least byte first.
JSON names an issuance by 24 bytes, the sequence number followed by the issuer.
-/

namespace LedgerWire

inductive Asset
  | native
  | issued (currency : Currency) (issuer : AccountId)
  | token (issuer : AccountId) (sequence : Octets 4)
deriving DecidableEq, Repr

namespace Asset

def typeName : String := LeafType.asset.name

/-- The account that marks a token issuance: number one. -/
def reserved : AccountId := ⟨Octets.ofNat 20 1⟩

def toBytes : Asset → Bytes
  | .native => Currency.native.bytes
  | .issued currency issuer => currency.bytes ++ issuer.bytes
  | .token issuer sequence => issuer.bytes ++ reserved.bytes ++ sequence.val.reverse

def ofTokenId (text : String) : Except Error Asset := do
  let id ← exactly typeName 24 (← hexBytes typeName text)
  let sequence : Octets 4 := ⟨id.val.take 4, by simp [id.property]⟩
  let issuer : AccountId := ⟨id.val.drop 4, by simp [id.property]⟩
  return .token issuer sequence

def ofCurrency (currency : Currency) (issuer : Option Json) : Except Error Asset :=
  match currency.isNative, issuer with
  | true, none => .ok .native
  | true, some _ => .error (.malformed typeName .nativeIssuer)
  | false, some issuer => do return .issued currency (← AccountId.ofJson issuer)
  | false, none => .error (.malformed typeName .missingIssuer)

def ofJson (json : Json) : Except Error Asset := do
  let .object _ := json | .error (.wrongShape typeName .asset)
  match json.get? "mpt_issuance_id" with
  | some id => ofTokenId (← id.text typeName .tokenId)
  | none =>
    match json.get? "currency" with
    | some currency => ofCurrency (← Currency.ofJson currency) (json.get? "issuer")
    | none => .error (.wrongShape typeName .currencyMember)

def readAny : Reader Asset := do
  let first ← Reader.octets 20
  if first.isZero then return .native
  let second ← Reader.octets 20
  if second = reserved.octets then
    return .token ⟨first⟩ (← Reader.octets 4).reverse
  return .issued ⟨first⟩ ⟨second⟩

def read (announced : Option Nat) : Reader Asset := do
  let asset ← readAny
  checkLength typeName asset.toBytes.length announced
  return asset

def toJson : Asset → Json
  | .native => .object [("currency", .string Currency.nativeName)]
  | .issued currency issuer =>
    .object [("currency", currency.toJson), ("issuer", issuer.toJson)]
  | .token issuer sequence =>
    .object [("mpt_issuance_id", .string (Hex.encode (sequence.val ++ issuer.bytes)))]

end Asset
end LedgerWire
