import LedgerWire.Leaf.Asset

namespace LedgerWire

structure Bridge where
  lockingDoor : AccountId
  lockingAsset : Asset
  issuingDoor : AccountId
  issuingAsset : Asset
deriving DecidableEq, Repr

namespace Bridge

def typeName : String := LeafType.bridge.name

def doorLength : UInt8 := 20

def toBytes (bridge : Bridge) : Bytes :=
  doorLength :: bridge.lockingDoor.bytes ++ bridge.lockingAsset.toBytes ++
    doorLength :: bridge.issuingDoor.bytes ++ bridge.issuingAsset.toBytes

def member (name : String) (json : Json) : Except Error Json :=
  match json.get? name with
  | some value => .ok value
  | none => .error (.malformed typeName (.missingMember name))

def ofJson (json : Json) : Except Error Bridge := do
  let .object _ := json | .error (.wrongShape typeName .bridge)
  let lockingDoor ← AccountId.ofJson (← member "LockingChainDoor" json)
  let lockingAsset ← Asset.ofJson (← member "LockingChainIssue" json)
  let issuingDoor ← AccountId.ofJson (← member "IssuingChainDoor" json)
  let issuingAsset ← Asset.ofJson (← member "IssuingChainIssue" json)
  return { lockingDoor, lockingAsset, issuingDoor, issuingAsset }

def readDoor : Reader AccountId := do
  let length ← Reader.byte
  if length ≠ doorLength then throw (.wrongLength typeName doorLength.toNat length.toNat)
  return ⟨← Reader.octets 20⟩

/-- An announced length does not matter. -/
def read : Reader Bridge := do
  let lockingDoor ← readDoor
  let lockingAsset ← Asset.readAny
  let issuingDoor ← readDoor
  let issuingAsset ← Asset.readAny
  return { lockingDoor, lockingAsset, issuingDoor, issuingAsset }

def splitDoor? (bytes : Bytes) : Option (AccountId × Bytes) :=
  (Octets.ofBytes? 20 ((bytes.drop 1).take 20)).map fun octets => (⟨octets⟩, bytes.drop 21)

def splitAsset? (bytes : Bytes) : Option (Asset × Bytes) := do
  let first ← Octets.ofBytes? 20 (bytes.take 20)
  if first.isZero then return (.native, bytes.drop 20)
  let second ← Octets.ofBytes? 20 ((bytes.drop 20).take 20)
  match Octets.ofBytes? 4 ((bytes.drop 40).take 4) with
  | some tail =>
    if second = Asset.reserved.octets then
      return (.token ⟨first⟩ tail.reverse, bytes.drop 44)
    else return (.issued ⟨first⟩ ⟨second⟩, bytes.drop 40)
  | none => return (.issued ⟨first⟩ ⟨second⟩, bytes.drop 40)

/-- The four parts as a receiver of the bytes takes them. -/
def split? (bytes : Bytes) : Option Bridge := do
  let (lockingDoor, bytes) ← splitDoor? bytes
  let (lockingAsset, bytes) ← splitAsset? bytes
  let (issuingDoor, bytes) ← splitDoor? bytes
  let (issuingAsset, _) ← splitAsset? bytes
  return { lockingDoor, lockingAsset, issuingDoor, issuingAsset }

def membersJson (bridge : Bridge) : Json :=
  .object
    [("LockingChainDoor", bridge.lockingDoor.toJson),
     ("LockingChainIssue", bridge.lockingAsset.toJson),
     ("IssuingChainDoor", bridge.issuingDoor.toJson),
     ("IssuingChainIssue", bridge.issuingAsset.toJson)]

def toJson (bridge : Bridge) : Except Error Json :=
  match split? bridge.toBytes with
  | some parts => .ok parts.membersJson
  | none => .error (.malformed typeName .bridgeTooShort)

end Bridge
end LedgerWire
