import LedgerWire.Json.Reader
import LedgerWire.Registry.Document
import LedgerWire.Wire.FieldHeader

namespace LedgerWire

structure Field where
  name : String
  nth : Int32
  variableLength : Bool
  serialized : Bool
  signing : Bool
  typeName : String
  typeCode : Int32
deriving DecidableEq, Repr

def FieldHeader.ofCodes? (typeCode nth : Int32) : Option FieldHeader :=
  let t := typeCode.toInt
  let n := nth.toInt
  if 1 ≤ t ∧ t ≤ 255 ∧ 1 ≤ n ∧ n ≤ 255 then
    some ⟨UInt8.ofNat t.toNat, UInt8.ofNat n.toNat⟩
  else none

namespace Field

def header? (field : Field) : Option FieldHeader :=
  if field.serialized then FieldHeader.ofCodes? field.typeCode field.nth else none

/-- The sort key of the field: the type code above sixteen bits that hold the field code. -/
def ordinal (field : Field) : Int :=
  ((Int64.ofInt field.typeCode.toInt <<< 16) ||| Int64.ofInt field.nth.toInt).toInt

def wireType? (field : Field) : Option WireType :=
  WireType.ofName? field.typeName

def isObject (field : Field) : Bool :=
  field.wireType? == some .object

def header (field : Field) : Except Error FieldHeader :=
  match field.header? with
  | some header => .ok header
  | none => .error (.unknownField (.name field.name))

def wireType (field : Field) : Except Error WireType :=
  match field.wireType? with
  | some type => .ok type
  | none => .error (.unsupportedType field.name field.typeName)

end Field

/-- A table of named codes. No two names share a code; a name that stands twice means its last
code. -/
structure CodeTable where
  entries : Codes
deriving DecidableEq, Repr

namespace CodeTable

def ofEntries? (entries : Codes) : Option CodeTable :=
  if (entries.map Prod.snd).Nodup then some ⟨entries⟩ else none

def code? (table : CodeTable) (name : String) : Option Int32 :=
  table.entries.reverse.lookup name

def name? (table : CodeTable) (code : Int32) : Option String :=
  (table.entries.find? (·.2 == code)).map Prod.fst

def size (table : CodeTable) : Nat :=
  (table.entries.map Prod.fst).eraseDups.length

def isEmpty (table : CodeTable) : Bool := table.entries.isEmpty

end CodeTable

/-- The enumerations whose names can stand for codes, each in the field of the same name. -/
inductive Enumeration
  | transactionType
  | ledgerEntryType
  | transactionResult
  | permissionValue
deriving DecidableEq, Repr

namespace Enumeration

def name : Enumeration → String
  | .transactionType => "TransactionType"
  | .ledgerEntryType => "LedgerEntryType"
  | .transactionResult => "TransactionResult"
  | .permissionValue => "PermissionValue"

def tableName : Enumeration → String
  | .transactionType => "TRANSACTION_TYPES"
  | .ledgerEntryType => "LEDGER_ENTRY_TYPES"
  | .transactionResult => "TRANSACTION_RESULTS"
  | .permissionValue => "PERMISSION_VALUES"

def all : List Enumeration :=
  [.transactionType, .ledgerEntryType, .transactionResult, .permissionValue]

def ofName? (name : String) : Option Enumeration :=
  all.find? (·.name == name)

end Enumeration

structure Registry where
  types : Codes
  fields : List Field
  transactionTypes : CodeTable
  ledgerEntryTypes : CodeTable
  transactionResults : CodeTable
  permissionValues : CodeTable
deriving DecidableEq, Repr

namespace Registry

def typeCode? (registry : Registry) (type : String) : Option Int32 :=
  registry.types.lookup type

def field? (registry : Registry) (name : String) : Option Field :=
  registry.fields.find? (·.name == name)

def field (registry : Registry) (name : String) : Except Error Field :=
  match registry.field? name with
  | some field => .ok field
  | none => .error (.unknownField (.name name))

def fieldOfHeader (registry : Registry) (header : FieldHeader) : Except Error Field :=
  match registry.fields.find? (·.header? == some header) with
  | some field => .ok field
  | none => .error (.unknownField (.header header.typeCode header.fieldCode))

def table (registry : Registry) : Enumeration → CodeTable
  | .transactionType => registry.transactionTypes
  | .ledgerEntryType => registry.ledgerEntryTypes
  | .transactionResult => registry.transactionResults
  | .permissionValue => registry.permissionValues

def codeOf (registry : Registry) (enumeration : Enumeration) (name : String) :
    Except Error Int32 :=
  match (registry.table enumeration).code? name with
  | some code => .ok code
  | none => .error (.malformed enumeration.name (.unknownName name))

def nameOf (registry : Registry) (enumeration : Enumeration) (code : Int32) :
    Except Error String :=
  match (registry.table enumeration).name? code with
  | some name => .ok name
  | none => .error (.malformed enumeration.name (.unknownCode code.toInt))

def granularPermissions : Codes :=
  [("TrustlineAuthorize", 65537), ("TrustlineFreeze", 65538), ("TrustlineUnfreeze", 65539),
   ("AccountDomainSet", 65540), ("AccountEmailHashSet", 65541), ("AccountMessageKeySet", 65542),
   ("AccountTransferRateSet", 65543), ("AccountTickSizeSet", 65544), ("PaymentMint", 65545),
   ("PaymentBurn", 65546), ("MPTokenIssuanceLock", 65547), ("MPTokenIssuanceUnlock", 65548)]

/-- A transaction type whose code is not negative is also a permission, one code higher in 32-bit
arithmetic; the granular permissions follow. -/
def permissionEntries (transactionTypes : Codes) : Codes :=
  (transactionTypes.filterMap fun (name, code) => if 0 ≤ code then some (name, code + 1) else none)
    ++ granularPermissions

/-- A field joins those before it: its type is declared, and no other field has its header or its
name. -/
def addField (types : Codes) (before : List Field) (name : String) (info : FieldInfo) :
    Except DefinitionsFault (List Field) := do
  let some typeCode := types.lookup info.type
    | .error (.undeclaredType name info.type)
  let field : Field := { info with name, typeCode, typeName := info.type }
  if field.serialized then
    if field.header?.isNone then
      .error (.codesOutOfRange name typeCode.toInt info.nth.toInt)
    if let some other := before.find? (·.header? == field.header?) then
      .error (.sharedHeader other.name name typeCode.toInt info.nth.toInt)
  if before.any (·.name == name) then .error (.repeatedField name)
  return before ++ [field]

def codeTable (enumeration : Enumeration) (entries : Codes) : Except DefinitionsFault CodeTable :=
  match CodeTable.ofEntries? entries with
  | some table => .ok table
  | none => .error (.sharedCode enumeration.tableName)

def ofDocument (document : Document) : Except DefinitionsFault Registry := do
  let fields ← document.fields.foldlM
    (fun before (name, info) => addField document.types before name info) []
  let permissionValues ← codeTable .permissionValue (permissionEntries document.transactionTypes)
  let transactionTypes ← codeTable .transactionType document.transactionTypes
  let ledgerEntryTypes ← codeTable .ledgerEntryType document.ledgerEntryTypes
  let transactionResults ← codeTable .transactionResult document.transactionResults
  return { types := document.types, fields, transactionTypes, ledgerEntryTypes,
           transactionResults, permissionValues }

def ofJson (json : Json) : Except Error Registry :=
  match Document.ofJson? json with
  | some document => (ofDocument document).mapError .definitions
  | none => .error (.definitions .document)

def ofText (text : String) : Except Error Registry :=
  match Json.parseVerbatim? text with
  | some json => ofJson json
  | none => .error (.definitions .document)

end Registry
end LedgerWire
