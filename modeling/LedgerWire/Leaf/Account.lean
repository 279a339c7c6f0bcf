import LedgerWire.Address.Tagged
import LedgerWire.Leaf.Text

/-!
Account identifiers as values. JSON writes the classic address; it may also be read from a tagged
address that holds no tag, from 40 hexadecimal digits, or from an empty string, which is the
account of zeros.
-/

namespace LedgerWire.AccountId

def typeName : String := LeafType.account.name

def isHexId (text : String) : Bool :=
  let chars := text.toList
  chars.length == 40 && chars.all fun c => (Hex.digitValue? c.toNat).isSome

def ofText (text : String) : Except Error AccountId :=
  if text = "" then .ok zero
  else if isHexId text then do
    return ⟨← exactly typeName 20 (← hexBytes typeName text)⟩
  else match TaggedAddress.decode text with
    | .ok x => if x.tag.isSome then .error (.tagNotAllowed typeName) else .ok x.account
    | .error _ => (ofClassic text).mapError .address

def ofJson (json : Json) : Except Error AccountId := do
  ofText (← json.text typeName .address)

/-- A length of zero announces the account of zeros. -/
def read (announced : Option Nat) : Reader AccountId :=
  if announced = some 0 then pure zero
  else do
    checkLength typeName 20 announced
    return ⟨← Reader.octets 20⟩

def toJson (account : AccountId) : Json := .string account.address

end LedgerWire.AccountId
