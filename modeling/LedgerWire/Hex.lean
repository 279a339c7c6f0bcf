import LedgerWire.Text.Quoted
import LedgerWire.Text.Utf8

namespace LedgerWire.Hex

def digit (n : Nat) : Char :=
  if n < 10 then Char.ofNat (n + 48) else Char.ofNat (n + 55)

def digitValue? (code : Nat) : Option Nat :=
  if 48 ≤ code ∧ code ≤ 57 then some (code - 48)
  else if 65 ≤ code ∧ code ≤ 70 then some (code - 55)
  else if 97 ≤ code ∧ code ≤ 102 then some (code - 87)
  else none

def natOfDigits? (digits : List Char) : Option Nat := do
  let values ← digits.mapM fun c => digitValue? c.toNat
  return values.foldl (fun n d => n * 16 + d) 0

def encodeByte (b : UInt8) : List Char :=
  [digit (b.toNat / 16), digit (b.toNat % 16)]

def encode (bytes : Bytes) : String :=
  String.ofList (bytes.flatMap encodeByte)

inductive Flaw
  | oddLength
  | invalidByte (byte : UInt8) (position : Nat)
deriving DecidableEq, Repr

/-- A byte that is no digit is shown as the character with its code. -/
def Flaw.message : Flaw → String
  | .oddLength => "Odd number of digits"
  | .invalidByte byte position =>
    "Invalid character " ++ Text.quotedSingle (Char.ofNat byte.toNat) ++
      " at position " ++ toString position

def decodePairs (position : Nat) : Bytes → Except Flaw Bytes
  | high :: low :: rest =>
    match digitValue? high.toNat, digitValue? low.toNat with
    | none, _ => .error (.invalidByte high position)
    | some _, none => .error (.invalidByte low (position + 1))
    | some h, some l =>
      match decodePairs (position + 2) rest with
      | .ok bytes => .ok (UInt8.ofNat (h * 16 + l) :: bytes)
      | .error flaw => .error flaw
  | [_] => .error .oddLength
  | [] => .ok []

/-- An odd number of bytes is noticed before any byte that is no digit. -/
def decodeBytes (text : Bytes) : Except Flaw Bytes :=
  if text.length % 2 = 1 then .error .oddLength else decodePairs 0 text

def decode (text : String) : Except Flaw Bytes :=
  decodeBytes (Text.utf8 text)

theorem decodePairs_encodeByte (position : Nat) (b : UInt8) (rest : Bytes) :
    decodePairs position
        (UInt8.ofNat (digit (b.toNat / 16)).toNat ::
          UInt8.ofNat (digit (b.toNat % 16)).toNat :: rest) =
      (decodePairs (position + 2) rest).map (b :: ·) := by
  have digits : ∀ n : Fin 256,
      digitValue? (UInt8.ofNat (digit (n.val / 16)).toNat).toNat = some (n.val / 16) ∧
      digitValue? (UInt8.ofNat (digit (n.val % 16)).toNat).toNat = some (n.val % 16) := by
    decide +kernel
  obtain ⟨high, low⟩ := digits ⟨b.toNat, b.toNat_lt⟩
  have whole : UInt8.ofNat (b.toNat / 16 * 16 + b.toNat % 16) = b := by
    rw [Nat.div_add_mod' b.toNat 16]
    exact UInt8.ofNat_toNat
  simp only [decodePairs, high, low, whole]
  cases decodePairs (position + 2) rest <;> rfl

theorem digit_ascii {n : Nat} (h : n < 16) : (digit n).toNat < 128 := by
  have all : ∀ n : Fin 16, (digit n.val).toNat < 128 := by decide +kernel
  exact all ⟨n, h⟩

theorem encodeByte_ascii {b : UInt8} {c : Char} (h : c ∈ encodeByte b) : c.toNat < 128 := by
  have bound := b.toNat_lt
  simp only [encodeByte, List.mem_cons, List.not_mem_nil, or_false] at h
  rcases h with rfl | rfl
  · exact digit_ascii (by omega)
  · exact digit_ascii (by omega)

theorem decodePairs_encode (position : Nat) (bytes : Bytes) :
    decodePairs position ((bytes.flatMap encodeByte).map fun c => UInt8.ofNat c.toNat) =
      .ok bytes := by
  induction bytes generalizing position with
  | nil => rfl
  | cons b rest ih =>
    have step := decodePairs_encodeByte position b
      ((rest.flatMap encodeByte).map fun c => UInt8.ofNat c.toNat)
    rw [ih] at step
    exact step

theorem length_encodeBytes (bytes : Bytes) :
    (bytes.flatMap encodeByte).length = 2 * bytes.length := by
  induction bytes with
  | nil => rfl
  | cons b rest ih =>
    rw [List.flatMap_cons, List.length_append, ih, List.length_cons]
    simp only [encodeByte, List.length_cons, List.length_nil]
    omega

theorem decode_encode (bytes : Bytes) : decode (encode bytes) = .ok bytes := by
  have ascii : ∀ c ∈ bytes.flatMap encodeByte, c.toNat < 128 := by
    intro c member
    obtain ⟨b, -, inside⟩ := List.mem_flatMap.mp member
    exact encodeByte_ascii inside
  rw [decode, encode, Text.utf8_of_ascii ascii, decodeBytes,
    if_neg (by rw [List.length_map, length_encodeBytes]; omega), decodePairs_encode]

end LedgerWire.Hex
