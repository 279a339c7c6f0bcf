import LedgerWire.Wire.Cursor

/-!
Field headers. A header names a field by a type code and a field code in one to three bytes: two
codes below 16 share a byte, and a larger code leaves its half of the first byte zero and follows in
a byte of its own, the type code first.
-/

namespace LedgerWire

structure FieldHeader where
  typeCode : UInt8
  fieldCode : UInt8
deriving DecidableEq, Repr

namespace FieldHeader

def ordinal (header : FieldHeader) : Nat :=
  header.typeCode.toNat * 65536 + header.fieldCode.toNat

def encode (header : FieldHeader) : Bytes :=
  let t := header.typeCode
  let f := header.fieldCode
  if t < 16 then
    if f < 16 then [t * 16 + f] else [t * 16, f]
  else
    if f < 16 then [f, t] else [0, t, f]

/-- A code whose half of the first byte is known: zero stands for a byte that follows, and that
byte must need its own place. -/
def scanCode (refuse : UInt8 → UnknownField) (half : UInt8) : Reader UInt8 := do
  if half ≠ 0 then return half
  let code ← Reader.byte
  if code < 16 then throw (.unknownField (refuse code))
  return code

def scan : Reader FieldHeader := do
  let first ← Reader.byte
  let typeCode ← scanCode .escapedTypeCode (first / 16)
  let fieldCode ← scanCode .escapedFieldCode (first % 16)
  return ⟨typeCode, fieldCode⟩

/-- Reads a whole header or nothing: a failure leaves the cursor in front of it, and bytes that
are missing are reported from there. -/
def read : Reader FieldHeader := fun cursor =>
  match scan cursor with
  | .ok header next => .ok header next
  | .error (.underrun _ needed _) _ => Reader.underrun needed cursor
  | .error e _ => .error e cursor

theorem halves_of_byte {t f : UInt8} (ht : t < 16) (hf : f < 16) :
    (t * 16 + f) / 16 = t ∧ (t * 16 + f) % 16 = f := by
  have t_bound : t.toNat < 16 := ht
  have f_bound : f.toNat < 16 := hf
  constructor <;> apply UInt8.toNat_inj.mp <;>
    simp only [UInt8.toNat_div, UInt8.toNat_mod, UInt8.toNat_add, UInt8.toNat_mul,
      UInt8.reduceToNat] <;>
    omega

theorem scanCode_of_half (refuse : UInt8 → UnknownField) {half : UInt8} (h : half ≠ 0)
    (cursor : Cursor) : scanCode refuse half cursor = .ok half cursor := by
  simp only [scanCode, ne_eq, h, not_false_eq_true, if_true]
  rfl

theorem scanCode_zero (refuse : UInt8 → UnknownField) {code : UInt8} (h : ¬ code < 16)
    (position : Nat) (rest : Bytes) :
    scanCode refuse 0 ⟨position, code :: rest⟩ = .ok code ⟨position + 1, rest⟩ := by
  simp only [scanCode, ne_eq, not_true_eq_false, if_false]
  rw [Reader.bind_ok (Reader.byte_cons ..), if_neg h]
  rfl

theorem scan_encode (header : FieldHeader) (ht : header.typeCode ≠ 0) (hf : header.fieldCode ≠ 0)
    (position : Nat) (rest : Bytes) :
    scan ⟨position, header.encode ++ rest⟩ =
      .ok header ⟨position + header.encode.length, rest⟩ := by
  obtain ⟨t, f⟩ := header
  simp only [encode, scan]
  split <;> split
  · rename_i small_t small_f
    obtain ⟨high, low⟩ := halves_of_byte small_t small_f
    rw [List.cons_append, Reader.bind_ok (Reader.byte_cons ..), high, low,
      Reader.bind_ok (scanCode_of_half _ ht _), Reader.bind_ok (scanCode_of_half _ hf _)]
    rfl
  · rename_i small_t large_f
    obtain ⟨high, low⟩ := halves_of_byte (f := 0) small_t (by decide)
    rw [UInt8.add_zero] at high low
    rw [List.cons_append, List.cons_append, Reader.bind_ok (Reader.byte_cons ..), high, low,
      Reader.bind_ok (scanCode_of_half _ ht _), Reader.bind_ok (scanCode_zero _ large_f ..)]
    rfl
  · rename_i large_t small_f
    obtain ⟨high, low⟩ := halves_of_byte (t := 0) (by decide) small_f
    rw [UInt8.zero_mul, UInt8.zero_add] at high low
    rw [List.cons_append, List.cons_append, Reader.bind_ok (Reader.byte_cons ..), high, low,
      Reader.bind_ok (scanCode_zero _ large_t ..), Reader.bind_ok (scanCode_of_half _ hf _)]
    rfl
  · rename_i large_t large_f
    rw [List.cons_append, List.cons_append, List.cons_append,
      Reader.bind_ok (Reader.byte_cons ..)]
    change (scanCode _ 0 >>= _) _ = _
    rw [Reader.bind_ok (scanCode_zero _ large_t ..)]
    change (scanCode _ 0 >>= _) _ = _
    rw [Reader.bind_ok (scanCode_zero _ large_f ..)]
    rfl

end FieldHeader
end LedgerWire
