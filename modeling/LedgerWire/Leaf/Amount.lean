import LedgerWire.Decimal.Basic
import LedgerWire.Leaf.Account
import LedgerWire.Leaf.Currency

/-!
Amounts. A native amount is a word of 8 bytes: a zero bit, a sign bit that is set for positive
amounts, and 62 bits of drops. An issued amount is a word, a currency and an issuer, 48 bytes in
all; its word is a one bit, the sign bit, 8 bits of exponent raised by 97, and 54 bits of mantissa.
The word of an issued zero has its first bit alone.
-/

namespace LedgerWire

inductive Amount
  | native (positive : Bool) (drops : BitVec 62)
  | issued (positive : Bool) (biased : UInt8) (mantissa : BitVec 54)
      (currency : Currency) (issuer : AccountId)
deriving DecidableEq, Repr

namespace Amount

def typeName : String := LeafType.amount.name

def maxDrops : Nat := 100000000000000000

def exponentBias : Nat := 97

def minExponent : Int := -96

def maxExponent : Int := 80

def issuedBit : Nat := 0x8000000000000000

def positiveBit : Nat := 0x4000000000000000

def exponentUnit : Nat := 0x40000000000000

def signBit (positive : Bool) : Nat := if positive then positiveBit else 0

def word : Amount → Nat
  | .native positive drops => signBit positive + drops.toNat
  | .issued positive biased mantissa _ _ =>
    issuedBit + signBit positive + biased.toNat * exponentUnit + mantissa.toNat

def isNative : Amount → Bool
  | .native _ _ => true
  | .issued .. => false

def drops? : Amount → Option Int
  | .native true drops => some drops.toNat
  | .native false drops => some (-drops.toNat)
  | .issued .. => none

def toBytes (amount : Amount) : Bytes :=
  match amount with
  | .native .. => beBytes 8 amount.word
  | .issued _ _ _ currency issuer => beBytes 8 amount.word ++ currency.bytes ++ issuer.bytes

/-- A native amount is written in plain digits. A text that is a decimal but not of that form is
refused for the first of these that holds: a fraction of a drop, a negative value, more digits than
all the drops have. Plain digits are a number of 64 bits. -/
def ofDrops (text : String) : Except Error Amount := do
  let some decimal := Decimal.ofText? text
    | .error (.malformed typeName (.notDrops text))
  if !decimal.isZero then
    if decimal.exponent < 0 then .error (.imprecise (.fractionalDrops text))
    if decimal.negative then .error (.overflow (.negativeDrops text))
    if 17 < decimal.leadingExponent then .error (.overflow (.drops text))
  if !Text.isDigits text.toList then .error (.malformed typeName (.notPlainDrops text))
  let drops := Text.natOfDigits text.toList
  if capacity 8 ≤ drops then .error (.malformed typeName (.tooLarge text))
  if maxDrops < drops then .error (.overflow (.drops text))
  return .native true (BitVec.ofNat 62 drops)

/-- Sign, raised exponent and mantissa of an issued value; a zero has none of them set. -/
def issuedParts (text : String) : Except Error (Bool × UInt8 × BitVec 54) := do
  let some decimal := Decimal.ofText? text
    | .error (.malformed typeName (.notDecimal text))
  if decimal.isZero then return (false, 0, 0)
  let (mantissa, exponent) ← decimal.normalize typeName
  if maxExponent < exponent then .error (.overflow (.issued text))
  if exponent < minExponent then .error (.imprecise (.issued text))
  return (!decimal.negative, UInt8.ofNat (exponent + exponentBias).toNat, BitVec.ofNat 54 mantissa)

def ofIssued (value : String) (currency issuer : Json) : Except Error Amount := do
  let (positive, biased, mantissa) ← issuedParts value
  let currency ← Currency.ofJson currency
  let issuer ← AccountId.ofJson issuer
  return .issued positive biased mantissa currency issuer

def ofJson (json : Json) : Except Error Amount :=
  match json with
  | .string drops => ofDrops drops
  | .object _ =>
    match json.get? "value", json.get? "currency", json.get? "issuer" with
    | some (.string value), some currency, some issuer => ofIssued value currency issuer
    | _, _, _ => .error (.wrongShape typeName .issuedAmount)
  | _ => .error (.wrongShape typeName .amount)

def nativeOfWord (word : Nat) : Amount :=
  .native (word / positiveBit % 2 == 1) (BitVec.ofNat 62 word)

def issuedOfWord (word : Nat) (currency : Currency) (issuer : AccountId) : Amount :=
  .issued (word / positiveBit % 2 == 1) (UInt8.ofNat (word / exponentUnit)) (BitVec.ofNat 54 word)
    currency issuer

def isNormal (mantissa : Nat) : Bool :=
  mantissa == 0 || (1000000000000000 ≤ mantissa && mantissa < 10000000000000000)

def readIssued : Reader Amount := do
  let octets ← Reader.octets 48
  let word := beValue (octets.val.take 8)
  let currency : Currency := ⟨(octets.val.drop 8).take 20, by simp [octets.property]⟩
  let issuer : AccountId := ⟨octets.val.drop 28, by simp [octets.property]⟩
  let mantissa := word % exponentUnit
  if isNormal mantissa then return issuedOfWord word currency issuer
  else throw (.malformed typeName (.unnormalized mantissa))

/-- The first bit tells the two forms apart before anything is read. -/
def read (announced : Option Nat) : Reader Amount := do
  let first ← Reader.peek
  if first < 128 then
    checkLength typeName 8 announced
    return nativeOfWord (← Reader.natural 8)
  else
    checkLength typeName 48 announced
    readIssued

def toJson : Amount → Json
  | .native positive drops =>
    let sign := if positive || drops == 0 then "" else "-"
    .string (sign ++ toString drops.toNat)
  | .issued positive biased mantissa currency issuer =>
    .object
      [("currency", currency.toJson),
       ("issuer", issuer.toJson),
       ("value", .string
         (Decimal.render (!positive) mantissa.toNat (biased.toNat - (exponentBias : Int))))]

end Amount
end LedgerWire
