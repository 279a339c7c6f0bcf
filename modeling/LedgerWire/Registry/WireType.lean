
namespace LedgerWire

inductive Width
  | one
  | two
  | four
  | eight
deriving DecidableEq, Repr

def Width.bytes : Width → Nat
  | .one => 1
  | .two => 2
  | .four => 4
  | .eight => 8

def Width.typeName : Width → String
  | .one => "UInt8"
  | .two => "UInt16"
  | .four => "UInt32"
  | .eight => "UInt64"

inductive HashWidth
  | h128
  | h160
  | h192
  | h256
deriving DecidableEq, Repr

def HashWidth.bytes : HashWidth → Nat
  | .h128 => 16
  | .h160 => 20
  | .h192 => 24
  | .h256 => 32

def HashWidth.typeName : HashWidth → String
  | .h128 => "Hash128"
  | .h160 => "Hash160"
  | .h192 => "Hash192"
  | .h256 => "Hash256"

inductive LeafType
  | unsigned (width : Width)
  | hash (width : HashWidth)
  | blob
  | currency
  | account
  | amount
  | asset
  | hashes
  | number
  | paths
  | bridge
deriving DecidableEq, Repr

def LeafType.name : LeafType → String
  | .unsigned width => width.typeName
  | .hash width => width.typeName
  | .blob => "Blob"
  | .currency => "Currency"
  | .account => "AccountID"
  | .amount => "Amount"
  | .asset => "Issue"
  | .hashes => "Vector256"
  | .number => "Number"
  | .paths => "PathSet"
  | .bridge => "XChainBridge"

inductive WireType
  | leaf (type : LeafType)
  | object
  | array
deriving DecidableEq, Repr

namespace WireType

def name : WireType → String
  | .leaf type => type.name
  | .object => "STObject"
  | .array => "STArray"

def all : List WireType :=
  [.leaf (.unsigned .one), .leaf (.unsigned .two), .leaf (.unsigned .four),
   .leaf (.unsigned .eight), .leaf (.hash .h128), .leaf (.hash .h160), .leaf (.hash .h192),
   .leaf (.hash .h256), .leaf .blob, .leaf .currency, .leaf .account, .leaf .amount,
   .leaf .asset, .leaf .hashes, .leaf .number, .leaf .paths, .leaf .bridge, .object, .array]

def ofName? (name : String) : Option WireType :=
  all.find? (·.name == name)

end WireType
end LedgerWire
