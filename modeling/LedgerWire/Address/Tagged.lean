import LedgerWire.Address.Account

/-!
Tagged addresses (X-addresses): an account, an optional 32-bit tag and a network in one token of
31 bytes: a version for the network, the account, a flag that says whether there is a tag, the tag
with its least byte first, and four zero bytes.
-/

namespace LedgerWire

inductive Network
  | main
  | test
deriving DecidableEq, Repr

def Network.version : Network → Bytes
  | .main => [0x05, 0x44]
  | .test => [0x04, 0x93]

def Network.ofVersion? (version : Bytes) : Option Network :=
  [Network.main, Network.test].find? (·.version == version)

structure TaggedAddress where
  account : AccountId
  tag : Option UInt32
  network : Network
deriving DecidableEq, Repr

namespace TaggedAddress
open Address (Fault)

def bodyLength : Nat := 31

def tagBytes : Option UInt32 → Bytes
  | none => [0, 0, 0, 0, 0]
  | some tag => 1 :: (beBytes 4 tag.toNat).reverse

def tagOf (flag : UInt8) (number : Nat) : Except Fault (Option UInt32) :=
  if flag = 0 then
    if number = 0 then .ok none else .error (.tagged .unflaggedTag)
  else if flag = 1 then .ok (some (UInt32.ofNat number))
  else .error (.tagged (.unknownFlag flag))

def body (x : TaggedAddress) : Bytes :=
  x.network.version ++ x.account.bytes ++ tagBytes x.tag ++ List.replicate 4 0

def ofBody (body : Bytes) : Except Fault TaggedAddress :=
  if h : body.length = bodyLength then
    match Network.ofVersion? (body.take 2) with
    | none => .error (.version (body.take 2))
    | some network =>
      let account : AccountId := ⟨(body.drop 2).take 20, by simp [h, bodyLength]⟩
      if body.drop 27 = List.replicate 4 0 then
        match tagOf (body.getD 22 0) (beValue ((body.drop 23).take 4).reverse) with
        | .ok tag => .ok ⟨account, tag, network⟩
        | .error fault => .error fault
      else .error (.tagged .wideTag)
  else .error (.tagged (.bodyLength body.length))

def encode (x : TaggedAddress) : String :=
  Address.sealBody x.body

def decode (text : String) : Except Fault TaggedAddress :=
  match Address.openBody text with
  | .ok body => ofBody body
  | .error fault => .error fault

def ofClassic (text : String) (tag : Option UInt32) (network : Network) : Except Fault String :=
  (AccountId.ofClassic text).map fun account => encode ⟨account, tag, network⟩

def classic (x : TaggedAddress) : String := x.account.address

def isValid (text : String) : Bool :=
  match decode text with
  | .ok _ => true
  | .error _ => false

end TaggedAddress
end LedgerWire
