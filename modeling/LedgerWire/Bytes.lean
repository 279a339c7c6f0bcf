
namespace LedgerWire

abbrev Bytes := List UInt8

def beValue (bytes : Bytes) : Nat :=
  bytes.foldl (fun n b => n * 256 + b.toNat) 0

/-- The low `width` bytes of a number, most significant byte first. -/
def beBytes : (width n : Nat) → Bytes
  | 0, _ => []
  | width + 1, n => beBytes width (n / 256) ++ [UInt8.ofNat n]

def capacity : (width : Nat) → Nat
  | 0 => 1
  | width + 1 => capacity width * 256

@[simp] theorem length_beBytes (width n : Nat) : (beBytes width n).length = width := by
  induction width generalizing n with
  | zero => rfl
  | succ width ih => simp [beBytes, ih]

@[simp] theorem beValue_append_singleton (bytes : Bytes) (b : UInt8) :
    beValue (bytes ++ [b]) = beValue bytes * 256 + b.toNat := by
  simp [beValue]

theorem exists_append_singleton (bytes : Bytes) (n : Nat) (h : bytes.length = n + 1) :
    ∃ front b, bytes = front ++ [b] ∧ front.length = n := by
  have nonempty : bytes ≠ [] := by rintro rfl; simp at h
  have whole := List.dropLast_concat_getLast nonempty
  exact ⟨bytes.dropLast, bytes.getLast nonempty, whole.symm, by simp [h]⟩

theorem beValue_lt (bytes : Bytes) : beValue bytes < capacity bytes.length := by
  suffices general : ∀ n (bytes : Bytes), bytes.length = n → beValue bytes < capacity n from
    general _ bytes rfl
  intro n
  induction n with
  | zero =>
    intro bytes h
    obtain rfl := List.length_eq_zero_iff.mp h
    decide
  | succ n ih =>
    intro bytes h
    obtain ⟨front, b, rfl, length⟩ := exists_append_singleton bytes n h
    have bound := ih front length
    have byte := b.toNat_lt
    rw [beValue_append_singleton, capacity]
    omega

theorem beValue_beBytes (width n : Nat) : beValue (beBytes width n) = n % capacity width := by
  induction width generalizing n with
  | zero => simp [beBytes, beValue, capacity, Nat.mod_one]
  | succ width ih =>
    have byte : (UInt8.ofNat n).toNat = n % 256 := UInt8.toNat_ofNat'
    rw [beBytes, beValue_append_singleton, ih, byte, capacity, Nat.mul_comm (capacity width),
      Nat.mod_mul]
    omega

theorem beBytes_beValue (bytes : Bytes) : beBytes bytes.length (beValue bytes) = bytes := by
  suffices general : ∀ n (bytes : Bytes), bytes.length = n → beBytes n (beValue bytes) = bytes from
    general _ bytes rfl
  intro n
  induction n with
  | zero =>
    intro bytes h
    obtain rfl := List.length_eq_zero_iff.mp h
    rfl
  | succ n ih =>
    intro bytes h
    obtain ⟨front, b, rfl, length⟩ := exists_append_singleton bytes n h
    have byte := b.toNat_lt
    have front_eq : (beValue front * 256 + b.toNat) / 256 = beValue front := by omega
    have last_eq : UInt8.ofNat (beValue front * 256 + b.toNat) = b := by
      apply UInt8.toNat_inj.mp
      rw [UInt8.toNat_ofNat']
      omega
    rw [beValue_append_singleton, beBytes, front_eq, last_eq, ih front length]

abbrev Octets (n : Nat) := { bytes : Bytes // bytes.length = n }

def Octets.ofBytes? (n : Nat) (bytes : Bytes) : Option (Octets n) :=
  if h : bytes.length = n then some ⟨bytes, h⟩ else none

def Octets.ofNat (n value : Nat) : Octets n :=
  ⟨beBytes n value, length_beBytes n value⟩

def Octets.reverse {n : Nat} (octets : Octets n) : Octets n :=
  ⟨octets.val.reverse, by simp [octets.property]⟩

@[simp] theorem Octets.reverse_reverse {n : Nat} (octets : Octets n) :
    octets.reverse.reverse = octets :=
  Subtype.ext (List.reverse_reverse octets.val)

def Octets.zero (n : Nat) : Octets n :=
  ⟨List.replicate n 0, List.length_replicate⟩

def Octets.isZero {n : Nat} (octets : Octets n) : Bool :=
  octets.val.all (· == 0)

end LedgerWire
