import LedgerWire.Leaf.Text

namespace LedgerWire

structure Hash where
  width : HashWidth
  octets : Octets width.bytes
deriving DecidableEq, Repr

namespace Hash

def ofBytes (width : HashWidth) (bytes : Bytes) : Except Error Hash := do
  return ⟨width, ← exactly width.typeName width.bytes bytes⟩

def zero (width : HashWidth) : Hash := ⟨width, Octets.zero width.bytes⟩

def isZero (hash : Hash) : Bool := hash.octets.isZero

def ofJson (width : HashWidth) (json : Json) : Except Error Hash := do
  let text ← json.text width.typeName .hexDigits
  if width = .h128 ∧ text = "" then return zero width
  ofBytes width (← hexBytes width.typeName text)

def toBytes (hash : Hash) : Bytes := hash.octets.val

def read (width : HashWidth) (announced : Option Nat) : Reader Hash := do
  checkLength width.typeName width.bytes announced
  return ⟨width, ← Reader.octets width.bytes⟩

def toJson (hash : Hash) : Json :=
  if hash.width = .h128 ∧ hash.isZero then .string "" else .string (Hex.encode hash.toBytes)

end Hash

structure HashList where
  hashes : List (Octets 32)
deriving DecidableEq, Repr

namespace HashList

def typeName : String := LeafType.hashes.name

def ofItem (json : Json) : Except Error (Octets 32) := do
  let text ← json.text HashWidth.h256.typeName .hexDigits
  exactly HashWidth.h256.typeName 32 (← hexBytes HashWidth.h256.typeName text)

def ofJson : Json → Except Error HashList
  | .array items => return ⟨← items.mapM ofItem⟩
  | _ => .error (.wrongShape typeName .hashList)

def toBytes (list : HashList) : Bytes := list.hashes.flatMap (·.val)

def readHashes : (count : Nat) → Reader (List (Octets 32))
  | 0 => return []
  | count + 1 => return (← Reader.octets 32) :: (← readHashes count)

/-- The announced length, or else the whole rest of the buffer, is taken as hashes. -/
def read (announced : Option Nat) : Reader HashList := do
  let length := announced.getD (← Reader.remaining)
  if length % 32 ≠ 0 then throw (.wrongLength typeName (length - length % 32) length)
  let bytes ← Reader.take length
  Reader.ofExcept ((readHashes (length / 32)).runOn bytes |>.map HashList.mk)

def toJson (list : HashList) : Json :=
  .array (list.hashes.map fun hash => .string (Hex.encode hash.val))

end HashList

structure Blob where
  bytes : Bytes
deriving DecidableEq, Repr

namespace Blob

def typeName : String := LeafType.blob.name

def ofJson (json : Json) : Except Error Blob := do
  return ⟨← hexBytes typeName (← json.text typeName .hexDigits)⟩

def read (announced : Option Nat) : Reader Blob := do
  return ⟨← Reader.take (announced.getD (← Reader.remaining))⟩

def toJson (blob : Blob) : Json := .string (Hex.encode blob.bytes)

end Blob
end LedgerWire
