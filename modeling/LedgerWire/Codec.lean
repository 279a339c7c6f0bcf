import LedgerWire.Text.Blank
import LedgerWire.Value.Build
import LedgerWire.Value.Render

namespace LedgerWire.Registry
variable (registry : Registry)

def encode (json : Json) : Except Error Bytes :=
  registry.fieldBytes false json

/-- The object that bytes hold, fields in the order of the bytes, and nothing after it. -/
def decodeBytes (bytes : Bytes) : Except Error Json :=
  match Reader.consumed (Reader.entries registry bytes.length topLevels) (Cursor.start bytes) with
  | .error e _ => .error e
  | .ok (_, object) cursor =>
    if cursor.rest.isEmpty then registry.renderObject topLevels object
    else .error (.malformed WireType.object.name (.trailingBytes cursor.remaining cursor.position))

/-- Reads hexadecimal text, blanks around it allowed. -/
def decode (text : String) : Except Error Json :=
  match Hex.decode (Text.trim text) with
  | .ok bytes => registry.decodeBytes bytes
  | .error flaw => .error (.hexInput flaw)

end LedgerWire.Registry
