import LedgerWire.Error

namespace LedgerWire

/-- A place in a buffer, and the bytes from there on. -/
structure Cursor where
  position : Nat
  rest : Bytes
deriving DecidableEq, Repr

def Cursor.start (buffer : Bytes) : Cursor := ⟨0, buffer⟩

def Cursor.remaining (cursor : Cursor) : Nat := cursor.rest.length

/-- A step through a buffer that gives a value or fails, and moves the cursor either way. -/
abbrev Reader := EStateM Error Cursor

namespace Reader

/-- Reads from the start of a buffer; what is left of the buffer does not matter. -/
def runOn {α : Type} (reader : Reader α) (buffer : Bytes) : Except Error α :=
  match reader (Cursor.start buffer) with
  | .ok a _ => .ok a
  | .error e _ => .error e

def ofExcept {α : Type} : Except Error α → Reader α
  | .ok a => pure a
  | .error e => throw e

def underrun {α : Type} (needed : Nat) : Reader α := fun cursor =>
  .error (.underrun cursor.position needed cursor.remaining) cursor

def octets (n : Nat) : Reader (Octets n) := fun cursor =>
  let taken := cursor.rest.take n
  if h : taken.length = n then .ok ⟨taken, h⟩ ⟨cursor.position + n, cursor.rest.drop n⟩
  else underrun n cursor

def take (n : Nat) : Reader Bytes := do
  return (← octets n).val

def skip (n : Nat) : Reader Unit := do
  let _ ← octets n

def peek : Reader UInt8 := fun cursor =>
  match cursor.rest with
  | byte :: _ => .ok byte cursor
  | [] => underrun 1 cursor

def byte : Reader UInt8 := fun cursor =>
  match cursor.rest with
  | byte :: rest => .ok byte ⟨cursor.position + 1, rest⟩
  | [] => underrun 1 cursor

def natural (width : Nat) : Reader Nat := do
  return beValue (← octets width).val

def remaining : Reader Nat := do
  return (← get).remaining

def consumed {α : Type} (reader : Reader α) : Reader (α × Bytes) := do
  let before ← get
  let a ← reader
  let after ← get
  return (a, before.rest.take (after.position - before.position))

theorem bind_ok {α β : Type} {reader : Reader α} {next : α → Reader β} {before after : Cursor}
    {a : α} (h : reader before = .ok a after) : (reader >>= next) before = next a after := by
  simp [bind, EStateM.bind, h]

@[simp] theorem byte_cons (position : Nat) (b : UInt8) (rest : Bytes) :
    byte ⟨position, b :: rest⟩ = .ok b ⟨position + 1, rest⟩ := rfl

@[simp] theorem octets_append (position : Nat) (bytes rest : Bytes) :
    octets bytes.length ⟨position, bytes ++ rest⟩ =
      .ok ⟨bytes, rfl⟩ ⟨position + bytes.length, rest⟩ := by
  simp [octets]

end Reader
end LedgerWire
