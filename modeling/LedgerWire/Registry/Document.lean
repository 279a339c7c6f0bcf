import LedgerWire.Json.Basic
import LedgerWire.Registry.WireType

/-!
Definitions documents: the tables from which a registry is built, as they stand in JSON. A document
or a field entry is an object with known names, or an array of the same values in a fixed order.
Other names are ignored; a known name may stand only once, while a name that a table repeats takes
its last code.
-/

namespace LedgerWire

abbrev Codes := List (String × Int32)

structure FieldInfo where
  nth : Int32
  variableLength : Bool
  serialized : Bool
  signing : Bool
  type : String
deriving DecidableEq, Repr

structure Document where
  types : Codes
  fields : List (String × FieldInfo)
  ledgerEntryTypes : Codes
  transactionResults : Codes
  transactionTypes : Codes
deriving DecidableEq, Repr

namespace Json

def sole? (name : String) (members : List (String × Json)) : Option Json :=
  match members.filter (·.1 == name) with
  | [(_, value)] => some value
  | _ => none

def record? (names : List String) : Json → Option (List Json)
  | .object members => names.mapM fun name => sole? name members
  | .array items => if items.length = names.length then some items else none
  | _ => none

def bool? : Json → Option Bool
  | .bool b => some b
  | _ => none

def int32? : Json → Option Int32
  | .number (.integer n) =>
    if -2147483648 ≤ n ∧ n < 2147483648 then some (Int32.ofInt n) else none
  | _ => none

def codes? : Json → Option Codes
  | .object members =>
    members.foldlM (fun codes (name, value) => do
      return setMember name (← value.int32?) codes) []
  | _ => none

end Json

namespace FieldInfo

def names : List String := ["nth", "isVLEncoded", "isSerialized", "isSigningField", "type"]

def ofJson? (json : Json) : Option FieldInfo := do
  match ← json.record? names with
  | [nth, variableLength, serialized, signing, type] =>
    return {
      nth := ← nth.int32?
      variableLength := ← variableLength.bool?
      serialized := ← serialized.bool?
      signing := ← signing.bool?
      type := ← type.string? }
  | _ => none

def toJson (info : FieldInfo) : Json :=
  .object <| names.zip
    [.number (.integer info.nth.toInt), .bool info.variableLength, .bool info.serialized,
      .bool info.signing, .string info.type]

end FieldInfo

namespace Document

def names : List String :=
  ["TYPES", "FIELDS", "LEDGER_ENTRY_TYPES", "TRANSACTION_RESULTS", "TRANSACTION_TYPES"]

def field? : Json → Option (String × FieldInfo)
  | .array [.string name, info] => do return (name, ← FieldInfo.ofJson? info)
  | _ => none

def fields? : Json → Option (List (String × FieldInfo))
  | .array items => items.mapM field?
  | _ => none

def ofJson? (json : Json) : Option Document := do
  match ← json.record? names with
  | [types, fields, ledgerEntryTypes, transactionResults, transactionTypes] =>
    return {
      types := ← types.codes?
      fields := ← fields? fields
      ledgerEntryTypes := ← ledgerEntryTypes.codes?
      transactionResults := ← transactionResults.codes?
      transactionTypes := ← transactionTypes.codes? }
  | _ => none

def codesJson (codes : Codes) : Json :=
  .object (codes.map fun (name, code) => (name, .number (.integer code.toInt)))

def toJson (document : Document) : Json :=
  .object <| names.zip
    [codesJson document.types,
      .array (document.fields.map fun (name, info) => .array [.string name, info.toJson]),
      codesJson document.ledgerEntryTypes, codesJson document.transactionResults,
      codesJson document.transactionTypes]

end Document
end LedgerWire
