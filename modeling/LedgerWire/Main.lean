import LedgerWire.CommandLine

namespace LedgerWire.CommandLine

def readFile? (path : String) : IO (Option (String × String)) := do
  try
    return some (path, ← IO.FS.readFile path)
  catch _ =>
    return none

def Command.inputs (command : Command) : IO Inputs := do
  let files ← command.paths.filterMapM readFile?
  let stdin ← if command.operand.isNone then (← IO.getStdin).readToEnd else pure ""
  return { files, stdin }

end LedgerWire.CommandLine

open LedgerWire.CommandLine

def main (args : List String) : IO UInt32 := do
  match parse? args with
  | none =>
    IO.eprintln "error: the arguments are not understood"
    return 2
  | some command =>
    let outcome := command.run (← command.inputs)
    IO.print outcome.output
    if let some failure := outcome.failure then
      IO.eprintln ("Error: " ++ failure)
    return UInt32.ofNat outcome.code
