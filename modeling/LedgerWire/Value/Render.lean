import LedgerWire.Value.Read

namespace LedgerWire

def Value.code? : Value → Option Int32
  | .leaf (.unsigned u) =>
    if u.width ≠ .eight ∧ u.value < 2147483648 then some (Int32.ofNat u.value) else none
  | _ => none

namespace Registry
variable (registry : Registry)

def nameOfValue? (field : Field) (value : Value) : Option String := do
  let enumeration ← Enumeration.ofName? field.name
  (registry.table enumeration).name? (← value.code?)

def renderWith (object array : Bytes → Except Error Json) (field : Field) (value : Value) :
    Except Error Json :=
  match registry.nameOfValue? field value, value with
  | some name, _ => .ok (.string name)
  | none, .leaf (.unsigned u) =>
    if u.width = .eight ∧ decimalFields.contains field.name then .ok (.string (toString u.value))
    else .ok u.toJson
  | none, .leaf leaf => leaf.toJson
  | none, .object bytes => object bytes
  | none, .array bytes => array bytes

/-- Named objects to the end marker or the end of the bytes, whatever the type of the fields that
name them. -/
def storedElements (entries : Reader (List Entry)) : (rounds : Nat) → Reader (List Element)
  | 0 => return []
  | rounds + 1 => do
    if (← get).rest.isEmpty then return []
    let field ← Reader.field registry
    if field.name = arrayEndName then return []
    let (_, body) ← Reader.consumed entries
    return ⟨field, body⟩ :: (← storedElements entries rounds)

mutual
def renderObject : (levels : Nat) → Bytes → Except Error Json
  | 0, _ => tooDeep .object
  | levels + 1, bytes => do
    let entries ← (Reader.entries registry bytes.length (levels + 1)).runOn bytes
    let members ← entries.mapM fun entry => do
      return (entry.field.name,
        ← renderWith registry (renderObject levels) (renderArray levels) entry.field entry.value)
    return .object (members.foldl (fun before (name, json) => setMember name json before) [])

def renderArray : (levels : Nat) → Bytes → Except Error Json
  | 0, _ => tooDeep .array
  | levels + 1, bytes => do
    let entries := Reader.entries registry bytes.length levels
    let elements ← (storedElements registry entries bytes.length).runOn bytes
    let items ← elements.mapM fun element => do
      return .object [(element.field.name, ← renderObject levels element.body)]
    return .array items
end

def render (field : Field) (value : Value) : Except Error Json :=
  renderWith registry (renderObject registry topLevels) (renderArray registry topLevels) field value

def renderValue : Value → Except Error Json
  | .leaf leaf => leaf.toJson
  | .object bytes => renderObject registry topLevels bytes
  | .array bytes => renderArray registry topLevels bytes

end Registry
end LedgerWire
