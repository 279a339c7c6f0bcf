import LedgerWire.ChannelClaim
import LedgerWire.Identifier
import LedgerWire.Json.Reader
import LedgerWire.Registry.Bundled
import LedgerWire.Signing

/-!
The command line: its grammar, and what each command prints.

A command has at most one operand. `--definitions PATH` and `-v` may stand before or after the name
of the command, and an option with a value takes it from the next argument or from behind an equals
sign. Two dashes end the options.
-/

namespace LedgerWire.CommandLine

inductive Action
  | encode
  | decode
  | encodeForSigning
  | encodeForSigningClaim
  | encodeForMultisigning
  | transactionId
deriving DecidableEq, Repr

namespace Action

def name : Action → String
  | .encode => "encode"
  | .decode => "decode"
  | .encodeForSigning => "encode-for-signing"
  | .encodeForSigningClaim => "encode-for-signing-claim"
  | .encodeForMultisigning => "encode-for-multisigning"
  | .transactionId => "tx-id"

def all : List Action :=
  [.encode, .decode, .encodeForSigning, .encodeForSigningClaim, .encodeForMultisigning,
   .transactionId]

def ofName? (name : String) : Option Action :=
  all.find? (·.name == name)

def option? : Action → Option String
  | .encodeForMultisigning => some "signer"
  | .transactionId => some "expect"
  | _ => none

end Action

/-- A command as it was asked for: `extra` is the value of the command's own option. -/
structure Command where
  action : Action
  definitions : Option String
  operand : Option String
  extra : Option String
deriving DecidableEq, Repr

inductive Word
  | plain (text : String)
  | long (name : String) (value : Option String)
  | verbose
  | separator
  | unknown
deriving DecidableEq, Repr

/-- A single dash is an operand, and so is what does not begin with one. -/
def Word.ofText (text : String) : Word :=
  match text.toList with
  | ['-', '-'] => .separator
  | '-' :: '-' :: rest =>
    let name := String.ofList (rest.takeWhile (· != '='))
    match rest.dropWhile (· != '=') with
    | _ :: value => .long name (some (String.ofList value))
    | [] => .long name none
  | ['-'] => .plain text
  | '-' :: letters => if letters.all (· == 'v') then .verbose else .unknown
  | _ => .plain text

/-- What has been seen: options of the whole program before the command's name are kept apart from
those after it. -/
structure Seen where
  action : Option Action := none
  outer : Option String := none
  inner : Option String := none
  operand : Option String := none
  extra : Option String := none
deriving DecidableEq, Repr

namespace Seen

def addDefinitions (seen : Seen) (path : String) : Option Seen :=
  match seen.action, seen.outer, seen.inner with
  | none, none, _ => some { seen with outer := some path }
  | some _, _, none => some { seen with inner := some path }
  | _, _, _ => none

def addOption (seen : Seen) (name value : String) : Option Seen :=
  if name = "definitions" then seen.addDefinitions value
  else if seen.extra.isNone && (seen.action.bind Action.option?) == some name then
    some { seen with extra := some value }
  else none

def addPlain (seen : Seen) (text : String) : Option Seen :=
  match seen.action with
  | none => (Action.ofName? text).map fun action => { seen with action := some action }
  | some _ =>
    if seen.operand.isNone then some { seen with operand := some text } else none

def addOperand (seen : Seen) (text : String) : Option Seen :=
  if seen.action.isSome then seen.addPlain text else none

def addAll (seen : Seen) : List String → Option Seen
  | [] => some seen
  | text :: rest =>
    match Word.ofText text with
    | .plain text => do addAll (← seen.addPlain text) rest
    | .verbose => addAll seen rest
    | .long "verbose" none => addAll seen rest
    | .long name (some value) => do addAll (← seen.addOption name value) rest
    | .long name none =>
      match rest with
      | value :: rest =>
        match Word.ofText value with
        | .plain value => do addAll (← seen.addOption name value) rest
        | _ => none
      | [] => none
    | .separator => rest.foldlM addOperand seen
    | .unknown => none

end Seen

def parse? (args : List String) : Option Command := do
  let seen ← Seen.addAll {} args
  let action ← seen.action
  guard (action != .encodeForMultisigning || seen.extra.isSome)
  return { action, definitions := seen.inner <|> seen.outer, operand := seen.operand,
           extra := seen.extra }

structure Outcome where
  code : Nat
  output : String
  failure : Option String
deriving DecidableEq, Repr

namespace Outcome

def success (output : String) : Outcome := ⟨0, output ++ "\n", none⟩

def failed (failure : String) : Outcome := ⟨1, "", some failure⟩

def refused : Outcome := ⟨2, "", none⟩

end Outcome

def missingFile : String := "No such file or directory (os error 2)"

/-- What a command reads: files by their paths, as far as they exist, and standard input. -/
structure Inputs where
  files : List (String × String)
  stdin : String

def loadRegistry (inputs : Inputs) : Option String → Except String Registry
  | none => .ok Registry.bundled
  | some path =>
    let loaded : Except String Registry := match inputs.files.lookup path with
      | none => .error ("I/O error: " ++ missingFile)
      | some text => (Registry.ofText text).mapError Error.message
    loaded.mapError fun reason => "Failed to load definitions " ++ path ++ ": " ++ reason

def readText (inputs : Inputs) : Option String → Except String String
  | none => .ok inputs.stdin
  | some path =>
    match inputs.files.lookup path with
    | some text => .ok text
    | none => .error ("Failed to read file " ++ path ++ ": " ++ missingFile)

def readJson (inputs : Inputs) (operand : Option String) : Except String Json := do
  match Json.parse? (← readText inputs operand) with
  | some json => .ok json
  | none => .error "Invalid JSON"

def headed {α : Type} (heading : String) (result : Except Error α) : Except String α :=
  result.mapError fun e => heading ++ e.message

def isAddress (text : String) : Bool :=
  (AccountId.ofClassic text).toBool || TaggedAddress.isValid text

def compareIdentifier (identifier : String) : Option String → Outcome
  | none => .success identifier
  | some claimed =>
    if sameIdentifier identifier claimed then .success identifier
    else
      { code := 1
        output := identifier ++ "\n"
        failure := some ("Transaction id mismatch: expected " ++ claimed ++ ", computed " ++
          identifier) }

def Command.execute (command : Command) (inputs : Inputs) : Except String Outcome := do
  let registry ← loadRegistry inputs command.definitions
  match command.action with
  | .encode =>
    let json ← readJson inputs command.operand
    return .success (Hex.encode (← headed "Encoding failed: " (registry.encode json)))
  | .decode =>
    let text := command.operand.getD inputs.stdin
    return .success (← headed "Decoding failed: " (registry.decode text)).pretty
  | .encodeForSigning =>
    let json ← readJson inputs command.operand
    return .success (Hex.encode (← headed "" (registry.encodeForSigning json)))
  | .encodeForSigningClaim =>
    let json ← readJson inputs command.operand
    let claim ← headed "" (ChannelClaim.ofJson json)
    return .success (Hex.encode claim.signingBytes)
  | .encodeForMultisigning =>
    let signer := command.extra.getD ""
    if !isAddress signer then .error ("Invalid signer address: " ++ signer)
    let json ← readJson inputs command.operand
    return .success (Hex.encode (← headed "" (registry.encodeForMultisigning json signer)))
  | .transactionId =>
    let json ← readJson inputs command.operand
    let identifier ← headed "Hashing failed: " (registry.transactionId json)
    return compareIdentifier identifier command.extra

def Command.run (command : Command) (inputs : Inputs) : Outcome :=
  match command.execute inputs with
  | .ok outcome => outcome
  | .error failure => .failed failure

def run (args : List String) (inputs : Inputs) : Outcome :=
  match parse? args with
  | some command => command.run inputs
  | none => .refused

def Command.paths (command : Command) : List String :=
  command.definitions.toList ++ (if command.action = .decode then [] else command.operand.toList)

end LedgerWire.CommandLine
