import LedgerWire.Leaf.Text

/-!
Currency codes of 160 bits. A three-character code stands in bytes 12 to 14 with zeros around it;
all zeros are the native asset, which JSON calls XRP; any other code is 40 hexadecimal digits.
-/

namespace LedgerWire

structure Currency where
  octets : Octets 20
deriving DecidableEq, Repr

namespace Currency

def typeName : String := LeafType.currency.name

def bytes (currency : Currency) : Bytes := currency.octets.val

@[simp] theorem length_bytes (currency : Currency) : currency.bytes.length = 20 :=
  currency.octets.property

def native : Currency := ⟨Octets.zero 20⟩

def isNative (currency : Currency) : Bool := currency.octets.isZero

def nativeName : String := "XRP"

def isCodeChar (c : Char) : Bool :=
  c.isAlphanum || "?!@#$%^&*()\x7b\x7d[]|".toList.contains c

def ofCode (a b c : Char) : Currency :=
  ⟨List.replicate 12 0 ++ [a, b, c].map (fun c => UInt8.ofNat c.toNat) ++ List.replicate 5 0,
    by simp⟩

/-- The three-character code of a currency that has one. The letters of the native asset are
no code. -/
def code? (currency : Currency) : Option String :=
  let code := ((currency.bytes.drop 12).take 3).map fun b => Char.ofNat b.toNat
  if (currency.bytes.take 12).all (· == 0) && (currency.bytes.drop 15).all (· == 0) &&
      code.all isCodeChar && String.ofList code != nativeName then
    some (String.ofList code)
  else none

def ofHex (text : String) : Except Error Currency :=
  if (Text.utf8 text).length = 40 then do
    return ⟨← exactly typeName 20 (← hexBytes typeName text)⟩
  else .error (.malformed typeName (.notCurrency text))

def ofText (text : String) : Except Error Currency :=
  if text = nativeName then .ok native
  else match text.toList with
    | [a, b, c] => if [a, b, c].all isCodeChar then .ok (ofCode a b c) else ofHex text
    | _ => ofHex text

def ofJson (json : Json) : Except Error Currency := do
  ofText (← json.text typeName .currencyCode)

def read (announced : Option Nat) : Reader Currency := do
  checkLength typeName 20 announced
  return ⟨← Reader.octets 20⟩

def text (currency : Currency) : String :=
  match currency.code? with
  | some code => code
  | none => if currency.isNative then nativeName else Hex.encode currency.bytes

def toJson (currency : Currency) : Json := .string currency.text

end Currency
end LedgerWire
