import LedgerWire.Registry.Basic

namespace LedgerWire.Registry

def encodeName (registry : Registry) (name : String) : Except Error Bytes := do
  let field ← registry.field name
  let header ← field.header
  return header.encode

def decodeName (registry : Registry) (bytes : Bytes) : Except Error String := do
  match FieldHeader.scan (Cursor.start bytes) with
  | .error e _ => .error e
  | .ok header cursor =>
    if cursor.rest.isEmpty then
      let field ← registry.fieldOfHeader header
      return field.name
    else .error (.unknownField (.trailingBytes cursor.remaining))

end LedgerWire.Registry
