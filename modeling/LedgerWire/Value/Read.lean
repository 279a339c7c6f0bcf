import LedgerWire.Value.Basic
import LedgerWire.Wire.LengthPrefix

/-!
Reading values. An object is a run of fields up to its end marker or the end of the buffer; an array
is a run of named objects up to its end marker. No more than ten containers may be open below the
outermost object.

Each field takes at least one byte, so the number of bytes in the buffer bounds the fields of
a container: that number is passed as `rounds`.
-/

namespace LedgerWire

def maxNesting : Nat := 10

def topLevels : Nat := maxNesting + 1

structure Entry where
  field : Field
  value : Value
deriving DecidableEq, Repr

structure Element where
  field : Field
  body : Bytes
deriving DecidableEq, Repr

def tooDeep {α : Type} (type : WireType) : Except Error α :=
  .error (.nestingTooDeep type.name maxNesting)

namespace Reader
variable (registry : Registry)

/-- A header and the field it stands for. The header is consumed even if it stands for none. -/
def field : Reader Field := do
  let header ← FieldHeader.read
  ofExcept (registry.fieldOfHeader header)

/-- The value of a field, given how to read the containers inside it. A variable length is read
first; a container does not look at it. -/
def valueWith (entries : Reader (List Entry)) (elements : Reader (List Element)) (field : Field) :
    Reader Value := do
  let type ← ofExcept field.wireType
  let announced ← if field.variableLength then some <$> LengthPrefix.read else pure none
  match type with
  | .leaf type => return .leaf (← Leaf.read type announced)
  | .object => return .object (← consumed entries).2
  | .array => return .array (← consumed elements).2

def entriesWith (readValue : Field → Reader Value) : (rounds : Nat) → Reader (List Entry)
  | 0 => return []
  | rounds + 1 => do
    if (← get).rest.isEmpty then return []
    let field ← field registry
    if field.name = objectEndName then return []
    let value ← readValue field
    return ⟨field, value⟩ :: (← entriesWith readValue rounds)

def elementsWith (entries : Reader (List Entry)) : (rounds : Nat) → Reader (List Element)
  | 0 => underrun 1
  | rounds + 1 => do
    let field ← field registry
    if field.name = arrayEndName then return []
    if !field.isObject then
      throw (.malformed WireType.array.name (.elementNotObjectField field.name))
    let (_, body) ← consumed entries
    return ⟨field, body⟩ :: (← elementsWith entries rounds)

variable (rounds : Nat)

mutual
def entries : (levels : Nat) → Reader (List Entry)
  | 0 => ofExcept (tooDeep .object)
  | levels + 1 => entriesWith registry (valueWith (entries levels) (elements levels)) rounds

def elements : (levels : Nat) → Reader (List Element)
  | 0 => ofExcept (tooDeep .array)
  | levels + 1 => elementsWith registry (entries levels) rounds
end

def valueAt (levels : Nat) (field : Field) : Reader Value :=
  valueWith (entries registry rounds levels) (elements registry rounds levels) field

def value (field : Field) : Reader Value := do
  valueAt registry (← remaining) topLevels field

def valueOfType (type : WireType) (announced : Option Nat) : Reader Value := do
  let rounds ← remaining
  match type with
  | .leaf type => return .leaf (← Leaf.read type announced)
  | .object => return .object (← consumed (entries registry rounds topLevels)).2
  | .array => return .array (← consumed (elements registry rounds topLevels)).2

end Reader
end LedgerWire
