import LedgerWire.Value.Render

namespace LedgerWire

inductive Probe
  | peek
  | natural (width : Nat)
  | length
  | take (n : Nat)
  | skip (n : Nat)
  | rest
  | header
  | field
  | value (target : Field)
deriving DecidableEq, Repr

inductive Finding
  | nothing
  | natural (n : Nat)
  | bytes (bytes : Bytes)
  | header (header : FieldHeader)
  | field (field : Field)
  | value (target : Field) (value : Value)
deriving DecidableEq, Repr

namespace Probe
variable (registry : Registry)

def read : Probe → Reader Finding
  | .peek => return .natural (← Reader.peek).toNat
  | .natural width => return .natural (← Reader.natural width)
  | .length => return .natural (← LengthPrefix.read)
  | .take n => return .bytes (← Reader.take n)
  | .skip n => do
    Reader.skip n
    return .nothing
  | .rest => return .bytes (← get).rest
  | .header => return .header (← FieldHeader.read)
  | .field => return .field (← Reader.field registry)
  | .value target => return .value target (← Reader.value registry target)

/-- The finding or the error of a step, and the cursor after it. -/
def step (probe : Probe) (cursor : Cursor) : Except Error Finding × Cursor :=
  match probe.read registry cursor with
  | .ok finding next => (.ok finding, next)
  | .error e next => (.error e, next)

def walk (probes : List Probe) (cursor : Cursor) : Cursor :=
  probes.foldl (fun cursor probe => (probe.step registry cursor).2) cursor

end Probe
end LedgerWire
