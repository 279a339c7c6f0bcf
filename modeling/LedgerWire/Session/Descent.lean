import LedgerWire.Session.Inspection

/-!
How deep a walk through a buffer goes: the containers that are open while a value is read. One more
is opened as long as no more than ten are open below the outermost one, and it is closed again
whatever comes of reading it.
-/

namespace LedgerWire

/-- A place in a buffer, the containers that are open there, and the most that have been open. -/
structure Descent where
  cursor : Cursor
  depth : Nat
  deepest : Nat
deriving DecidableEq, Repr

def Descent.start (depth : Nat) (buffer : Bytes) : Descent := ⟨.start buffer, depth, depth⟩

abbrev DepthReader := EStateM Error Descent

namespace DepthReader
variable {α : Type}

def lift (reader : Reader α) : DepthReader α := fun before =>
  match reader before.cursor with
  | .ok a cursor => .ok a { before with cursor }
  | .error e cursor => .error e { before with cursor }

/-- Reads inside of one more container, if it may be opened. -/
def descend (type : WireType) (read : DepthReader α) : DepthReader α := fun before =>
  if maxNesting < before.depth then .error (.nestingTooDeep type.name maxNesting) before
  else
    let depth := before.depth + 1
    match read { before with depth, deepest := max before.deepest depth } with
    | .ok a after => .ok a { after with depth := after.depth - 1 }
    | .error e after => .error e { after with depth := after.depth - 1 }

def consumed (reader : DepthReader α) : DepthReader (α × Bytes) := do
  let before := (← get).cursor
  let a ← reader
  let after := (← get).cursor
  return (a, before.rest.take (after.position - before.position))

variable (registry : Registry)

def valueWith (entries : DepthReader (List Entry)) (elements : DepthReader (List Element))
    (field : Field) : DepthReader Value := do
  let type ← lift (Reader.ofExcept field.wireType)
  let announced ← if field.variableLength then some <$> lift LengthPrefix.read else pure none
  match type with
  | .leaf type => return .leaf (← lift (Leaf.read type announced))
  | .object => return .object (← consumed entries).2
  | .array => return .array (← consumed elements).2

def entriesWith (readValue : Field → DepthReader Value) : (rounds : Nat) → DepthReader (List Entry)
  | 0 => return []
  | rounds + 1 => do
    if (← get).cursor.rest.isEmpty then return []
    let field ← lift (Reader.field registry)
    if field.name = objectEndName then return []
    let value ← readValue field
    return ⟨field, value⟩ :: (← entriesWith readValue rounds)

def elementsWith (entries : DepthReader (List Entry)) : (rounds : Nat) → DepthReader (List Element)
  | 0 => lift (Reader.underrun 1)
  | rounds + 1 => do
    let field ← lift (Reader.field registry)
    if field.name = arrayEndName then return []
    if !field.isObject then
      throw (.malformed WireType.array.name (.elementNotObjectField field.name))
    let (_, body) ← consumed entries
    return ⟨field, body⟩ :: (← elementsWith entries rounds)

variable (rounds : Nat)

mutual
/-- The fields of an object. Only the depth says whether it may be opened: `tries` is one more than
the containers that may be. -/
def entries : (tries : Nat) → DepthReader (List Entry)
  | 0 => lift (Reader.ofExcept (tooDeep .object))
  | tries + 1 =>
    descend .object (entriesWith registry (valueWith (entries tries) (elements tries)) rounds)

def elements : (tries : Nat) → DepthReader (List Element)
  | 0 => lift (Reader.ofExcept (tooDeep .array))
  | tries + 1 => descend .array (elementsWith registry (entries tries) rounds)
end

def value (field : Field) : DepthReader Value := do
  let rounds := (← get).cursor.remaining
  let tries := topLevels + 1
  valueWith (entries registry rounds tries) (elements registry rounds tries) field

end DepthReader

namespace Probe
variable (registry : Registry)

def readDeep : Probe → DepthReader Finding
  | .value target => return .value target (← DepthReader.value registry target)
  | probe => DepthReader.lift (probe.read registry)

def stepDeep (probe : Probe) (before : Descent) : Except Error Finding × Descent :=
  match probe.readDeep registry before with
  | .ok finding after => (.ok finding, after)
  | .error e after => (.error e, after)

def walkDeep (probes : List Probe) (start : Descent) : Descent :=
  probes.foldl (fun place probe => (probe.stepDeep registry place).2) start

end Probe
end LedgerWire
