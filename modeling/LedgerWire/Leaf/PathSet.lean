import LedgerWire.Leaf.Account
import LedgerWire.Leaf.Currency

/-!
Payment paths. A step begins with a byte whose bits say which of account, currency and issuer follow
it, in that order; `FF` separates two paths and `00` ends the set. No path is empty.
-/

namespace LedgerWire

structure PathStep where
  account : Option AccountId
  currency : Option Currency
  issuer : Option AccountId
deriving DecidableEq, Repr

structure PathSet where
  paths : List (List PathStep)
deriving DecidableEq, Repr

namespace PathStep

def kind (step : PathStep) : UInt8 :=
  (if step.account.isSome then 0x01 else 0) + (if step.currency.isSome then 0x10 else 0) +
    (if step.issuer.isSome then 0x20 else 0)

def toBytes (step : PathStep) : Bytes :=
  step.kind :: ((step.account.map AccountId.bytes).getD [] ++
    (step.currency.map Currency.bytes).getD [] ++ (step.issuer.map AccountId.bytes).getD [])

def member {α : Type} (name : String) (read : Json → Except Error α) (json : Json) :
    Except Error (Option α) :=
  match json.get? name with
  | some value => (read value).map some
  | none => .ok none

def ofJson (json : Json) : Except Error PathStep := do
  let .object _ := json | .error (.wrongShape LeafType.paths.name .pathStep)
  let account ← member "account" AccountId.ofJson json
  let currency ← member "currency" Currency.ofJson json
  let issuer ← member "issuer" AccountId.ofJson json
  let step : PathStep := ⟨account, currency, issuer⟩
  if step.kind = 0 then .error (.malformed LeafType.paths.name .emptyStep)
  return step

def readIf {α : Type} (present : Bool) (wrap : Octets 20 → α) : Reader (Option α) :=
  if present then do return some (wrap (← Reader.octets 20)) else pure none

def read (kind : UInt8) : Reader PathStep := do
  if kind &&& 0xCE ≠ 0 then throw (.malformed LeafType.paths.name (.unknownStep kind))
  let account ← readIf (kind &&& 0x01 ≠ 0) AccountId.mk
  let currency ← readIf (kind &&& 0x10 ≠ 0) Currency.mk
  let issuer ← readIf (kind &&& 0x20 ≠ 0) AccountId.mk
  return ⟨account, currency, issuer⟩

def toJson (step : PathStep) : Json :=
  .object <| ((step.account.map fun a => ("account", a.toJson)).toList ++
    (step.currency.map fun c => ("currency", c.toJson)).toList ++
    (step.issuer.map fun i => ("issuer", i.toJson)).toList)

end PathStep

namespace PathSet

def typeName : String := LeafType.paths.name

def separator : UInt8 := 0xFF

def terminator : UInt8 := 0x00

def toBytes (set : PathSet) : Bytes :=
  [separator].intercalate (set.paths.map fun path => path.flatMap PathStep.toBytes) ++ [terminator]

def pathOfJson : Json → Except Error (List PathStep)
  | .array steps => steps.mapM PathStep.ofJson
  | _ => .error (.wrongShape typeName .pathList)

def ofJson : Json → Except Error PathSet
  | .array items => do
    let paths ← items.mapM pathOfJson
    if paths.any List.isEmpty then .error (.malformed typeName .emptyPath)
    return ⟨paths⟩
  | _ => .error (.wrongShape typeName .pathList)

/-- Reads to the end of the set; `before` are the paths read and `path` the steps of the one that
is open. Every round takes a byte, so the number of bytes left is enough `rounds`. -/
def readPaths : (rounds : Nat) → (before : List (List PathStep)) → (path : List PathStep) →
    Reader (List (List PathStep))
  | 0, _, _ => Reader.underrun 1
  | rounds + 1, before, path => do
    let kind ← Reader.byte
    if kind = terminator then
      if path.isEmpty && !before.isEmpty then throw (.malformed typeName .emptyPath)
      return if path.isEmpty then before else before ++ [path]
    else if kind = separator then
      if path.isEmpty then throw (.malformed typeName .emptyPath)
      readPaths rounds (before ++ [path]) []
    else
      let step ← PathStep.read kind
      readPaths rounds before (path ++ [step])

/-- A set ends where it says; an announced length does not matter. -/
def read : Reader PathSet := do
  return ⟨← readPaths (← Reader.remaining) [] []⟩

def toJson (set : PathSet) : Json :=
  .array (set.paths.map fun path => .array (path.map PathStep.toJson))

end PathSet
end LedgerWire
