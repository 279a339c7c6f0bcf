import LedgerWire.Registry.Basic
import LedgerWire.Wire.LengthPrefix

namespace LedgerWire

abbrev Writer := EStateM Error Bytes

namespace Writer

def runFresh (writer : Writer Unit) : Except Error Bytes :=
  match writer [] with
  | .ok () bytes => .ok bytes
  | .error e _ => .error e

def ofExcept {α : Type} : Except Error α → Writer α
  | .ok a => pure a
  | .error e => throw e

def put (bytes : Bytes) : Writer Unit :=
  modify (· ++ bytes)

def lengthEncoded (bytes : Bytes) : Writer Unit := do
  put (← ofExcept (LengthPrefix.encode bytes.length))
  put bytes

/-- The header of a field and its value. A field of variable length has its length in between, and
may be written with no payload at all. -/
def field (field : Field) (value : Bytes) (omitPayload : Bool) : Writer Unit := do
  let header ← ofExcept field.header
  put header.encode
  if field.variableLength then lengthEncoded (if omitPayload then [] else value)
  else put value

end Writer
end LedgerWire
