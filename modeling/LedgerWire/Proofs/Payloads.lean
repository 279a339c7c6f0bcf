import LedgerWire.Proofs.Delimited
import LedgerWire.Proofs.PartialWrites

/-!
Bytes behind their length. They are written where a length prefix can express their length, and read
back whatever follows them; a prefix that is read is the one that is written. The arithmetic of both
directions never leaves the words in which it is done: bytes for the parts of a prefix, 32 bits or
more for lengths.
-/

namespace LedgerWire.LengthPrefix

def byte? (n : Nat) : Option UInt8 :=
  if n < 256 then some (UInt8.ofNat n) else none

def word? (n : Nat) : Option Nat :=
  if n < 4294967296 then some n else none

def minus? (a b : Nat) : Option Nat :=
  if b ≤ a then some (a - b) else none

theorem byte?_of_lt {n : Nat} (fits : n < 256) : byte? n = some (UInt8.ofNat n) := if_pos fits

theorem word?_of_lt {n : Nat} (fits : n < 4294967296) : word? n = some n := if_pos fits

theorem minus?_of_le {a b : Nat} (le : b ≤ a) : minus? a b = some (a - b) := if_pos le

def plus? (a b : UInt8) : Option UInt8 :=
  byte? (a.toNat + b.toNat)

def tierByte? (first : UInt8) (high : Nat) : Option UInt8 := do
  plus? first (← byte? high)

def twoBytes? (excess : Nat) : Option Bytes := do
  return [← tierByte? 193 (excess >>> 8), ← byte? (excess &&& 0xFF)]

def threeBytes? (excess : Nat) : Option Bytes := do
  return [← tierByte? 241 (excess >>> 16), ← byte? (excess >>> 8 &&& 0xFF),
    ← byte? (excess &&& 0xFF)]

/-- The prefix of a length, or nothing where a step leaves its word. -/
def encodeInWords? (length : Nat) : Option (Except Error Bytes) :=
  if length ≤ 192 then (byte? length).map fun byte => .ok [byte]
  else if length ≤ 12480 then ((minus? length 193).bind twoBytes?).map .ok
  else if length ≤ maxPrefixedLength then ((minus? length 12481).bind threeBytes?).map .ok
  else some (.error (.lengthPrefix (.tooLong length)))

def ofTwo? (b1 b2 : Nat) : Option Nat := do
  let steps ← word? ((← minus? b1 193) * 256)
  word? ((← word? (193 + steps)) + b2)

def ofThree? (b1 b2 b3 : Nat) : Option Nat := do
  let steps ← word? ((← minus? b1 241) * 65536)
  let first ← word? (12481 + steps)
  let second ← word? (first + (← word? (b2 * 256)))
  word? (second + b3)

/-- Reads a length prefix; no length where a step leaves its word. -/
def readInWords : Reader (Option Nat) := do
  let first ← Reader.byte
  let b1 := first.toNat
  if b1 ≤ 192 then return some b1
  else if b1 ≤ 240 then
    let b2 ← Reader.byte
    return ofTwo? b1 b2.toNat
  else if b1 ≤ 254 then
    let b2 ← Reader.byte
    let b3 ← Reader.byte
    match ofThree? b1 b2.toNat b3.toNat with
    | none => return none
    | some length =>
      if length ≤ maxPrefixedLength then return some length
      else throw (.lengthPrefix (.tooLong length))
  else throw (.lengthPrefix (.reserved first))

theorem low_byte (n : Nat) : n &&& 0xFF = n % 256 := Nat.and_two_pow_sub_one_eq_mod n 8

theorem tierByte?_of_lt {first : UInt8} {high : Nat} (fits : first.toNat + high < 256) :
    tierByte? first high = some (UInt8.ofNat (first.toNat + high)) := by
  have value : (UInt8.ofNat high).toNat = high := by
    rw [UInt8.toNat_ofNat']
    omega
  rw [tierByte?, byte?_of_lt (by omega), Option.bind_eq_bind, Option.bind_some, plus?, value,
    byte?_of_lt fits]

theorem twoBytes?_eq {excess : Nat} (bound : excess < 48 * 256) :
    twoBytes? excess =
      some [UInt8.ofNat (193 + excess / 256), UInt8.ofNat (excess % 256)] := by
  have high : excess >>> 8 = excess / 256 := Nat.shiftRight_eq_div_pow excess 8
  rw [twoBytes?, high, low_byte, tierByte?_of_lt (by simp only [UInt8.reduceToNat]; omega),
    byte?_of_lt (by omega)]
  rfl

theorem threeBytes?_eq {excess : Nat} (bound : excess < 14 * 65536) :
    threeBytes? excess =
      some [UInt8.ofNat (241 + excess / 65536), UInt8.ofNat (excess / 256 % 256),
        UInt8.ofNat (excess % 256)] := by
  have high : excess >>> 16 = excess / 65536 := Nat.shiftRight_eq_div_pow excess 16
  have middle : excess >>> 8 = excess / 256 := Nat.shiftRight_eq_div_pow excess 8
  rw [threeBytes?, high, middle, low_byte, low_byte,
    tierByte?_of_lt (by simp only [UInt8.reduceToNat]; omega), byte?_of_lt (by omega),
    byte?_of_lt (by omega)]
  rfl

theorem encodeInWords?_eq (length : Nat) : encodeInWords? length = some (encode length) := by
  unfold encodeInWords? encode
  split
  · rw [byte?_of_lt (by omega), Option.map_some]
  split
  · rw [minus?_of_le (by omega), Option.bind_some, twoBytes?_eq (by omega), Option.map_some]
  split
  · rename_i three
    have bound : length - 12481 < 14 * 65536 := by
      unfold maxPrefixedLength at three
      omega
    rw [minus?_of_le (by omega), Option.bind_some, threeBytes?_eq bound, Option.map_some]
  · rfl

theorem ofTwo?_eq {b1 b2 : Nat} (first : 193 ≤ b1) (bound : b1 < 256) (bound' : b2 < 256) :
    ofTwo? b1 b2 = some (193 + (b1 - 193) * 256 + b2) := by
  rw [ofTwo?, minus?_of_le first, Option.bind_eq_bind, Option.bind_some, word?_of_lt (by omega),
    Option.bind_some, word?_of_lt (by omega), Option.bind_some, word?_of_lt (by omega)]

theorem ofThree?_eq {b1 b2 b3 : Nat} (first : 241 ≤ b1) (bound : b1 < 256) (bound' : b2 < 256)
    (bound'' : b3 < 256) :
    ofThree? b1 b2 b3 = some (12481 + (b1 - 241) * 65536 + b2 * 256 + b3) := by
  rw [ofThree?, minus?_of_le first, Option.bind_eq_bind, Option.bind_some, word?_of_lt (by omega),
    Option.bind_some, word?_of_lt (by omega), Option.bind_some, word?_of_lt (by omega),
    Option.bind_some, word?_of_lt (by omega), Option.bind_some, word?_of_lt (by omega)]

theorem readInWords_eq : readInWords = some <$> read := by
  rw [readInWords, read, map_bind]
  refine bind_congr fun first => ?_
  have bound := first.toNat_lt
  dsimp only
  split
  · rfl
  split
  · rw [map_bind]
    refine bind_congr fun second => ?_
    rw [ofTwo?_eq (by omega) bound second.toNat_lt]
    rfl
  split
  · rw [map_bind]
    refine bind_congr fun second => ?_
    rw [map_bind]
    refine bind_congr fun third => ?_
    simp only [ofThree?_eq (by omega : 241 ≤ first.toNat) bound second.toNat_lt third.toNat_lt]
    split <;> rfl
  · rfl

def readPayload : Reader Bytes := do
  Reader.take (← read)

theorem reads_encode {length : Nat} {written : Bytes} (h : encode length = .ok written) :
    Reads read written length :=
  fun position rest => read_encode h position rest

theorem reads_payload {payload front : Bytes} (h : encode payload.length = .ok front) :
    Reads readPayload (front ++ payload) payload :=
  (reads_encode h).bind (.take payload)

theorem exists_encode_iff (length : Nat) :
    (∃ written, encode length = .ok written) ↔ length ≤ maxPrefixedLength := by
  cases encoded : encode length with
  | ok written =>
    refine ⟨fun _ => Nat.le_of_not_lt fun long => ?_, fun _ => ⟨written, rfl⟩⟩
    rw [encode_eq_error.mpr ⟨long, rfl⟩] at encoded
    cases encoded
  | error e =>
    obtain ⟨long, -⟩ := encode_eq_error.mp encoded
    exact ⟨nofun, fun short => absurd short (Nat.not_le.mpr long)⟩

theorem lengthEncoded_eq_ok {payload before after : Bytes} :
    Writer.lengthEncoded payload before = .ok () after ↔
      ∃ front, encode payload.length = .ok front ∧ after = before ++ front ++ payload := by
  cases encoded : encode payload.length with
  | ok front =>
    rw [Writer.lengthEncoded_of_encode encoded]
    constructor
    · intro h
      cases h
      exact ⟨front, rfl, rfl⟩
    · rintro ⟨_, same, rfl⟩
      cases same
      rfl
  | error e =>
    rw [Writer.lengthEncoded_of_error encoded]
    exact ⟨nofun, fun ⟨_, made, _⟩ => by cases made⟩

/-- Bytes are written behind their length exactly if a prefix can express it, are read back whatever
follows, and leave what follows. A prefix that is read is the one that its length is written with,
and no step of writing or reading one leaves its word. -/
theorem payloads_self_delimiting :
    (∀ payload before, (∃ after, Writer.lengthEncoded payload before = .ok () after) ↔
      payload.length ≤ maxPrefixedLength) ∧
    (∀ payload before after, Writer.lengthEncoded payload before = .ok () after →
      ∃ written, after = before ++ written ∧ ∀ position rest,
        readPayload ⟨position, written ++ rest⟩ =
          .ok payload ⟨position + written.length, rest⟩) ∧
    (∀ before length after, read before = .ok length after →
      ∃ written, encode length = .ok written ∧ Passes before written after) ∧
    (∀ length, encodeInWords? length = some (encode length)) ∧
    readInWords = some <$> read := by
  refine ⟨fun payload before => ?_, fun payload before after h => ?_,
    fun before length after h => passes_read h, encodeInWords?_eq, readInWords_eq⟩
  · simp only [lengthEncoded_eq_ok]
    rw [← exists_encode_iff]
    exact ⟨fun ⟨_, front, encoded, _⟩ => ⟨front, encoded⟩, fun ⟨front, encoded⟩ =>
      ⟨_, front, encoded, rfl⟩⟩
  · obtain ⟨front, encoded, rfl⟩ := lengthEncoded_eq_ok.mp h
    exact ⟨front ++ payload, List.append_assoc .., reads_payload encoded⟩

end LedgerWire.LengthPrefix
