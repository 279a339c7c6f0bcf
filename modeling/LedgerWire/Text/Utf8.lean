import LedgerWire.Bytes

namespace LedgerWire.Text

def utf8 (text : String) : Bytes :=
  text.toList.flatMap String.utf8EncodeChar

theorem utf8EncodeChar_of_ascii {c : Char} (h : c.toNat < 128) :
    String.utf8EncodeChar c = [UInt8.ofNat c.toNat] := by
  have small : c.val.toNat ≤ 127 := by have : c.val.toNat < 128 := h; omega
  simp only [String.utf8EncodeChar, small, if_true]
  rfl

theorem utf8_of_ascii {chars : List Char} (h : ∀ c ∈ chars, c.toNat < 128) :
    utf8 (String.ofList chars) = chars.map fun c => UInt8.ofNat c.toNat := by
  simp only [utf8, String.toList_ofList]
  induction chars with
  | nil => rfl
  | cons c rest ih =>
    rw [List.flatMap_cons, utf8EncodeChar_of_ascii (h c List.mem_cons_self),
      ih fun d member => h d (List.mem_cons_of_mem c member)]
    rfl

end LedgerWire.Text
