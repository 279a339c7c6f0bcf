import LedgerWire.Wire.Cursor

namespace LedgerWire.LengthPrefix

def encode (length : Nat) : Except Error Bytes :=
  if length ≤ 192 then .ok [UInt8.ofNat length]
  else if length ≤ 12480 then
    let excess := length - 193
    .ok [UInt8.ofNat (193 + excess / 256), UInt8.ofNat (excess % 256)]
  else if length ≤ maxPrefixedLength then
    let excess := length - 12481
    .ok [UInt8.ofNat (241 + excess / 65536), UInt8.ofNat (excess / 256 % 256),
      UInt8.ofNat (excess % 256)]
  else .error (.lengthPrefix (.tooLong length))

/-- A first byte up to 192 is the length itself, up to 240 begins two bytes and up to 254 three. -/
def read : Reader Nat := do
  let first ← Reader.byte
  let b1 := first.toNat
  if b1 ≤ 192 then return b1
  else if b1 ≤ 240 then
    let b2 ← Reader.byte
    return 193 + (b1 - 193) * 256 + b2.toNat
  else if b1 ≤ 254 then
    let b2 ← Reader.byte
    let b3 ← Reader.byte
    let length := 12481 + (b1 - 241) * 65536 + b2.toNat * 256 + b3.toNat
    if length ≤ maxPrefixedLength then return length
    else throw (.lengthPrefix (.tooLong length))
  else throw (.lengthPrefix (.reserved first))

theorem read_encode {length : Nat} {written : Bytes} (h : encode length = .ok written)
    (position : Nat) (rest : Bytes) :
    read ⟨position, written ++ rest⟩ = .ok length ⟨position + written.length, rest⟩ := by
  have small : ∀ n < 256, (UInt8.ofNat n).toNat = n := fun _ bound => by
    rw [UInt8.toNat_ofNat']
    omega
  unfold encode at h
  split at h
  · rename_i one
    cases h
    simp only [read, List.cons_append, List.nil_append]
    rw [Reader.bind_ok (Reader.byte_cons ..), small length (by omega), if_pos one]
    rfl
  split at h
  · cases h
    simp only [read, List.cons_append, List.nil_append]
    rw [Reader.bind_ok (Reader.byte_cons ..), small _ (by omega), if_neg (by omega),
      if_pos (by omega), Reader.bind_ok (Reader.byte_cons ..), small _ (by omega)]
    have whole : 193 + (193 + (length - 193) / 256 - 193) * 256 + (length - 193) % 256 =
        length := by
      omega
    rw [whole]
    rfl
  split at h
  · rename_i three
    cases h
    have bound : length ≤ 918744 := three
    simp only [read, List.cons_append, List.nil_append]
    rw [Reader.bind_ok (Reader.byte_cons ..), small _ (by omega), if_neg (by omega),
      if_neg (by omega), if_pos (by omega), Reader.bind_ok (Reader.byte_cons ..),
      Reader.bind_ok (Reader.byte_cons ..), small _ (by omega), small _ (by omega)]
    have whole : 12481 + (241 + (length - 12481) / 65536 - 241) * 65536 +
        (length - 12481) / 256 % 256 * 256 + (length - 12481) % 256 = length := by
      omega
    rw [whole, if_pos three]
    rfl
  · cases h

end LedgerWire.LengthPrefix
