
namespace LedgerWire.Text

def isDigits (text : List Char) : Bool :=
  !text.isEmpty && text.all Char.isDigit

def natOfDigits (digits : List Char) : Nat :=
  Nat.ofDigitChars 10 digits 0

@[simp] theorem natOfDigits_toDigits (n : Nat) : natOfDigits (Nat.toDigits 10 n) = n :=
  Nat.ofDigitChars_toDigits (by decide) (by decide)

theorem isDigits_toDigits (n : Nat) : isDigits (Nat.toDigits 10 n) = true := by
  have digit : ∀ c ∈ Nat.toDigits 10 n, c.isDigit = true := fun c member =>
    Nat.isDigit_of_mem_toDigits (by decide) (by decide) member
  simp [isDigits, List.all_eq_true.mpr digit, Nat.toDigits_ne_nil]

end LedgerWire.Text
