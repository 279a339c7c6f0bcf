import LedgerWire.Leaf.Amount
import LedgerWire.Leaf.Bridge
import LedgerWire.Leaf.Hash
import LedgerWire.Leaf.Number
import LedgerWire.Leaf.PathSet
import LedgerWire.Leaf.Unsigned

namespace LedgerWire

inductive Leaf
  | unsigned (value : Unsigned)
  | hash (value : Hash)
  | blob (value : Blob)
  | currency (value : Currency)
  | account (value : AccountId)
  | amount (value : Amount)
  | asset (value : Asset)
  | hashes (value : HashList)
  | number (value : Quantity)
  | paths (value : PathSet)
  | bridge (value : Bridge)
deriving DecidableEq, Repr

namespace Leaf

def ofJson (type : LeafType) (json : Json) : Except Error Leaf :=
  match type with
  | .unsigned width => (Unsigned.ofJson width json).map .unsigned
  | .hash width => (Hash.ofJson width json).map .hash
  | .blob => (Blob.ofJson json).map .blob
  | .currency => (Currency.ofJson json).map .currency
  | .account => (AccountId.ofJson json).map .account
  | .amount => (Amount.ofJson json).map .amount
  | .asset => (Asset.ofJson json).map .asset
  | .hashes => (HashList.ofJson json).map .hashes
  | .number => (Quantity.ofJson json).map .number
  | .paths => (PathSet.ofJson json).map .paths
  | .bridge => (Bridge.ofJson json).map .bridge

def read (type : LeafType) (announced : Option Nat) : Reader Leaf :=
  match type with
  | .unsigned width => return .unsigned (← Unsigned.read width announced)
  | .hash width => return .hash (← Hash.read width announced)
  | .blob => return .blob (← Blob.read announced)
  | .currency => return .currency (← Currency.read announced)
  | .account => return .account (← AccountId.read announced)
  | .amount => return .amount (← Amount.read announced)
  | .asset => return .asset (← Asset.read announced)
  | .hashes => return .hashes (← HashList.read announced)
  | .number => return .number (← Quantity.read announced)
  | .paths => return .paths (← PathSet.read)
  | .bridge => return .bridge (← Bridge.read)

def toBytes : Leaf → Bytes
  | .unsigned value => value.toBytes
  | .hash value => value.toBytes
  | .blob value => value.bytes
  | .currency value => value.bytes
  | .account value => value.bytes
  | .amount value => value.toBytes
  | .asset value => value.toBytes
  | .hashes value => value.toBytes
  | .number value => value.toBytes
  | .paths value => value.toBytes
  | .bridge value => value.toBytes

def toJson : Leaf → Except Error Json
  | .unsigned value => .ok value.toJson
  | .hash value => .ok value.toJson
  | .blob value => .ok value.toJson
  | .currency value => .ok value.toJson
  | .account value => .ok value.toJson
  | .amount value => .ok value.toJson
  | .asset value => .ok value.toJson
  | .hashes value => .ok value.toJson
  | .number value => .ok value.toJson
  | .paths value => .ok value.toJson
  | .bridge value => value.toJson

end Leaf
end LedgerWire
