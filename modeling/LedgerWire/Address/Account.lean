import LedgerWire.Address.Token

namespace LedgerWire

structure AccountId where
  octets : Octets 20
deriving DecidableEq, Repr

namespace AccountId

def bytes (account : AccountId) : Bytes := account.octets.val

@[simp] theorem length_bytes (account : AccountId) : account.bytes.length = 20 :=
  account.octets.property

def zero : AccountId := ⟨Octets.zero 20⟩

def address (account : AccountId) : String :=
  Address.sealBody (Address.Kind.account.version ++ account.bytes)

def ofClassic (text : String) : Except Address.Fault AccountId :=
  (Address.Kind.account.decode text).map fun payload => ⟨payload⟩

end AccountId
end LedgerWire
