import LedgerWire.Bytes

/-!
Base 58 with the ledger's alphabet. A byte string is its leading zero bytes, each written as the
first letter of the alphabet, and the number that the rest spells, written in base 58 without
leading zeros.
-/

namespace LedgerWire.Base58

def alphabet : List Char :=
  "rpshnaf39wBUDNEGHJKLM4PQRST7VWXYZ2bcdeCg65jkm8oFqi1tuvAxyz".toList

def letter (digit : Nat) : Char :=
  alphabet.getD digit 'r'

def digitOf? (c : Char) : Option Nat :=
  alphabet.idxOf? c

def digits (base : Nat) (n : Nat) : List Nat :=
  if _h : 1 < base ∧ 0 < n then
    n % base :: digits base (n / base)
  else []
termination_by n
decreasing_by exact Nat.div_lt_self _h.2 _h.1

def ofDigits (base : Nat) (ds : List Nat) : Nat :=
  ds.foldl (fun n d => n * base + d) 0

/-- Changes the base of a digit string, most significant digit first; every leading zero stays
one leading zero. -/
def rebase (source target : Nat) (ds : List Nat) : List Nat :=
  (ds.takeWhile (· == 0)) ++ (digits target (ofDigits source (ds.dropWhile (· == 0)))).reverse

def encode (bytes : Bytes) : String :=
  String.ofList ((rebase 256 58 (bytes.map UInt8.toNat)).map letter)

inductive Flaw
  | invalidCharacter (c : Char) (position : Nat)
  | nonAscii (position : Nat)
deriving DecidableEq, Repr

def readDigits (position : Nat) : List Char → Except Flaw (List Nat)
  | [] => .ok []
  | c :: rest =>
    match digitOf? c with
    | some d =>
      match readDigits (position + 1) rest with
      | .ok ds => .ok (d :: ds)
      | .error flaw => .error flaw
    | none =>
      if c.toNat < 128 then .error (.invalidCharacter c position) else .error (.nonAscii position)

def decode (text : String) : Except Flaw Bytes :=
  match readDigits 0 text.toList with
  | .ok ds => .ok ((rebase 58 256 ds).map UInt8.ofNat)
  | .error flaw => .error flaw

end LedgerWire.Base58
