import LedgerWire.Value.Basic
import LedgerWire.Value.Expansion
import LedgerWire.Wire.Writer

/-!
Building values from JSON. An object is written field by field in ascending order of ordinals,
whatever the order of its members; members that are no serialized field are left out. An array is a
list of objects with one member each. The bytes of the containers inside a value are worked out
first, from the inside out, and kept beside it.
-/

namespace LedgerWire

/-- A JSON value with the bytes it stands for as a container: the fields of an object, or the
elements of an array with its marker. -/
structure Item where
  json : Json
  body : Except Error Bytes

def Item.plain (json : Json) : Item := ⟨json, .ok []⟩

namespace Item

def objectBody (item : Item) : Except Error Bytes :=
  match item.json with
  | .object _ => item.body
  | _ => .error (.wrongShape WireType.object.name .object)

def arrayBody (item : Item) : Except Error Bytes :=
  match item.json with
  | .array _ => item.body
  | _ => .error (.wrongShape WireType.array.name .elementList)

def toValue (type : WireType) (item : Item) : Except Error Value :=
  match type with
  | .leaf type => (Leaf.ofJson type item.json).map .leaf
  | .object => item.objectBody.map .object
  | .array => item.arrayBody.map .array

def toFieldValue (registry : Registry) (field : Field) (item : Item) : Except Error Value := do
  let type ← field.wireType
  match Enumeration.ofName? field.name, item.json with
  | some enumeration, .string name =>
    let code ← registry.codeOf enumeration name
    (Item.plain (.number (.integer code.toInt))).toValue type
  | _, json =>
    if type = .leaf (.unsigned .eight) ∧ decimalFields.contains field.name then
      (Unsigned.ofDecimalJson json).map fun u => .leaf (.unsigned u)
    else item.toValue type

end Item

/-- The pseudo-transaction whose account is written without its bytes. -/
def emptyAccountType : String := "UNLModify"

namespace Registry
variable (registry : Registry)

def wireFields (signingOnly : Bool) (items : List (String × Item)) : List (Field × Item) :=
  (items.filterMap fun (name, item) => do
    let field ← registry.field? name
    guard (field.serialized && (!signingOnly || field.signing))
    return (field, item)).mergeSort fun a b => a.1.ordinal ≤ b.1.ordinal

/-- A field of an object; a nested object is closed by its end marker. -/
def writeMember (emptyAccount : Bool) (field : Field) (item : Item) : Writer Unit := do
  let value ← Writer.ofExcept (item.toFieldValue registry field)
  Writer.field field value.toBytes (emptyAccount && field.name == "Account")
  if field.isObject then Writer.put [objectEnd]

def objectBytes (signingOnly : Bool) (items : List (String × Item)) : Except Error Bytes := do
  let edits ← expansionEdits (items.map fun (name, item) => (name, item.json))
  let items := edits.foldl (fun all (name, json) => setMember name (Item.plain json) all) items
  let type := (items.lookup "TransactionType").bind fun item => item.json.string?
  let emptyAccount := type == some emptyAccountType
  Writer.runFresh <| (registry.wireFields signingOnly items).forM fun (field, item) =>
    writeMember registry emptyAccount field item

def elementBytes : Option (List (String × Item)) → Except Error Bytes
  | none => .error (.wrongShape WireType.array.name .elementList)
  | some members =>
    match members with
    | [(name, item)] => do
      if name = objectEndName then .error (.malformed WireType.array.name (.memberCount 1))
      let field ← registry.field name
      if !field.isObject then .error (.malformed WireType.array.name (.notObjectField name))
      let header ← field.header
      return header.encode ++ (← item.objectBody) ++ [objectEnd]
    | _ => .error (.malformed WireType.array.name (.memberCount members.length))

def arrayBytes (elements : List (Option (List (String × Item)))) : Except Error Bytes := do
  return (← elements.mapM registry.elementBytes).flatten ++ [arrayEnd]

mutual
def pack : Json → Item
  | .object members => ⟨.object members, objectBytes registry false (packMembers members)⟩
  | .array items => ⟨.array items, arrayBytes registry (packElements items)⟩
  | json => .plain json

def packMembers : List (String × Json) → List (String × Item)
  | [] => []
  | (name, json) :: rest => (name, pack json) :: packMembers rest

def packElements : List Json → List (Option (List (String × Item)))
  | [] => []
  | .object members :: rest => some (packMembers members) :: packElements rest
  | _ :: rest => none :: packElements rest
end

def valueOfType (type : WireType) (json : Json) : Except Error Value :=
  (pack registry json).toValue type

def valueOf (field : Field) (json : Json) : Except Error Value :=
  (pack registry json).toFieldValue registry field

/-- The fields of a JSON object, or those that signatures cover; nested objects keep all of
theirs. -/
def fieldBytes (signingOnly : Bool) : Json → Except Error Bytes
  | .object members => objectBytes registry signingOnly (packMembers registry members)
  | _ => .error (.wrongShape WireType.object.name .object)

end Registry
end LedgerWire
