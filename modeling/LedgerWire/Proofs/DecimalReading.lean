import Mathlib.Tactic.Ring
import LedgerWire.Proofs.DecimalGrammar

namespace LedgerWire.Decimal
open Text (isDigits natOfDigits)

theorem trailingZeros_mul {c : Nat} (h : c % 10 ≠ 0) (j : Nat) :
    trailingZeros (c * 10 ^ j) = j := by
  induction j with
  | zero =>
    rw [Nat.pow_zero, Nat.mul_one, trailingZeros, dif_neg (by omega)]
  | succ j ih =>
    have shifted : c * 10 ^ (j + 1) = c * 10 ^ j * 10 := by
      rw [Nat.pow_succ, Nat.mul_assoc]
    have positive : 0 < c * 10 ^ j := Nat.mul_pos (by omega) (Nat.pow_pos (by decide))
    rw [shifted, trailingZeros, dif_pos (by omega), Nat.mul_div_cancel _ (by decide), ih]

theorem exists_coefficient {n : Nat} (h : 0 < n) :
    ∃ c j, c % 10 ≠ 0 ∧ n = c * 10 ^ j := by
  induction n using Nat.strongRecOn with
  | _ n ih =>
    by_cases ends : n % 10 = 0
    · obtain ⟨c, j, coefficient, shorter⟩ := ih (n / 10) (by omega) (by omega)
      refine ⟨c, j + 1, coefficient, ?_⟩
      rw [Nat.pow_succ, ← Nat.mul_assoc, ← shorter]
      omega
    · exact ⟨n, 0, ends, by rw [Nat.pow_zero, Nat.mul_one]⟩

theorem coefficient_unique {c d j k : Nat} (c_last : c % 10 ≠ 0) (d_last : d % 10 ≠ 0)
    (same : c * 10 ^ j = d * 10 ^ k) : c = d ∧ j = k := by
  have count := trailingZeros_mul c_last j
  rw [same, trailingZeros_mul d_last] at count
  subst count
  exact ⟨Nat.eq_of_mul_eq_mul_right (Nat.pow_pos (by decide)) same, rfl⟩

theorem natOfDigits_append (front back : List Char) :
    natOfDigits (front ++ back) = natOfDigits front * 10 ^ back.length + natOfDigits back := by
  rw [natOfDigits, Nat.ofDigitChars_append, Nat.ofDigitChars_eq_ofDigitChars_zero, Nat.mul_comm]
  rfl

theorem natOfDigits_zeros_append (k : Nat) (digits : List Char) :
    natOfDigits (List.replicate k '0' ++ digits) = natOfDigits digits := by
  rw [natOfDigits, Nat.ofDigitChars_append, Nat.ofDigitChars_replicate_zero, Nat.mul_zero]
  rfl

theorem natOfDigits_append_zeros (digits : List Char) (k : Nat) :
    natOfDigits (digits ++ List.replicate k '0') = natOfDigits digits * 10 ^ k := by
  rw [natOfDigits, Nat.ofDigitChars_append, Nat.ofDigitChars_replicate_zero, Nat.mul_comm]
  rfl

theorem stripZeros_append (digits : List Char) :
    (stripZeros digits).1 ++ List.replicate (stripZeros digits).2 '0' = digits := by
  have zeros : List.replicate (digits.reverse.takeWhile (· == '0')).length '0' =
      (digits.reverse.takeWhile (· == '0')).reverse := by
    symm
    rw [List.eq_replicate_iff]
    refine ⟨List.length_reverse, fun c member => ?_⟩
    simpa using List.mem_takeWhile_imp (List.mem_reverse.mp member)
  have count : (stripZeros digits).2 = (digits.reverse.takeWhile (· == '0')).length := by
    have whole := congrArg List.length
      (List.takeWhile_append_dropWhile (p := (· == '0')) (l := digits.reverse))
    rw [List.length_append, List.length_reverse] at whole
    simp only [stripZeros, List.length_reverse]
    omega
  rw [count, zeros, stripZeros, ← List.reverse_append, List.takeWhile_append_dropWhile,
    List.reverse_reverse]

theorem digit_bounds {c : Char} (h : c.isDigit = true) :
    natOfDigits [c] < 10 ∧ (natOfDigits [c] = 0 ↔ c = '0') := by
  obtain ⟨lower, upper⟩ := Char.isDigit_iff_toNat.mp h
  have value : natOfDigits [c] = c.toNat - 48 := by simp [natOfDigits, Nat.ofDigitChars_cons]
  have lower : 48 ≤ c.toNat := lower
  have upper : c.toNat ≤ 57 := upper
  rw [value]
  refine ⟨by omega, fun zero => ?_, by rintro rfl; rfl⟩
  have same : c.toNat = '0'.toNat := show c.toNat = 48 by omega
  exact Char.toNat_inj.mp same

theorem natOfDigits_stripZeros {digits : List Char} (h : digits.all Char.isDigit = true)
    (nonzero : natOfDigits digits ≠ 0) :
    natOfDigits (stripZeros digits).1 % 10 ≠ 0 ∧
      natOfDigits digits = natOfDigits (stripZeros digits).1 * 10 ^ (stripZeros digits).2 := by
  have whole := stripZeros_append digits
  have value : natOfDigits digits =
      natOfDigits (stripZeros digits).1 * 10 ^ (stripZeros digits).2 := by
    rw [← natOfDigits_append_zeros, whole]
  refine ⟨?_, value⟩
  have last := List.head?_dropWhile_not (· == '0') digits.reverse
  cases kept : digits.reverse.dropWhile (· == '0') with
  | nil =>
    rw [stripZeros, kept] at value
    exact absurd (value.trans (Nat.zero_mul _)) nonzero
  | cons c front =>
    rw [kept] at last
    have shape : (stripZeros digits).1 = front.reverse ++ [c] := by
      rw [stripZeros, kept, List.reverse_cons]
    rw [← whole, shape, List.all_append, List.all_append, Bool.and_eq_true, Bool.and_eq_true] at h
    have digit : c.isDigit = true := by simpa using h.1.2
    have bounds := digit_bounds digit
    have not_zero : natOfDigits [c] ≠ 0 := fun zero => by simp [bounds.2.mp zero] at last
    rw [shape, natOfDigits_append, List.length_singleton]
    omega

def Fits64 (n : Int) : Prop := -2 ^ 63 ≤ n ∧ n < 2 ^ 63

instance (n : Int) : Decidable (Fits64 n) := inferInstanceAs (Decidable (_ ∧ _))

theorem inRange_iff {n : Int} : inRange n = true ↔ Fits64 n := by
  simp only [inRange, Bool.and_eq_true, decide_eq_true_eq, Fits64]
  omega

namespace Spelling

section Parts
variable (s : Spelling)

def significand : Nat := natOfDigits s.digits

def trailing : Nat := (stripZeros s.digits).2

/-- The exponent as written, that of the last digit and, of a number other than zero, that of the
last digit other than zero are integers of 64 bits. -/
structure InLimits : Prop where
  literal : Fits64 s.literal
  point : Fits64 (s.literal - s.places)
  last : s.significand ≠ 0 → Fits64 (s.literal - s.places + s.trailing)

/-- The decimal that keeps the digits between the zeros. -/
def decimal : Decimal :=
  if s.significand = 0 then ⟨s.sign.negative, 0, 0⟩
  else ⟨s.sign.negative, natOfDigits (stripZeros s.digits).1, s.literal - s.places + s.trailing⟩

end Parts

variable {s : Spelling}

theorem all_digits : s.digits.all Char.isDigit = true := all_isDigit s.valid

theorem decimal_of_coefficient {c j : Nat} (last : c % 10 ≠ 0)
    (value : s.significand = c * 10 ^ j) :
    s.trailing = j ∧ s.decimal = ⟨s.sign.negative, c, s.literal - s.places + j⟩ := by
  have positive : 0 < c * 10 ^ j := Nat.mul_pos (by omega) (Nat.pow_pos (by decide))
  have nonzero : s.significand ≠ 0 := by omega
  obtain ⟨kept_last, split⟩ := natOfDigits_stripZeros all_digits nonzero
  obtain ⟨kept, zeros⟩ := coefficient_unique kept_last last (split.symm.trans value)
  have trailing : s.trailing = j := zeros
  rw [decimal, if_neg nonzero, kept, trailing]
  exact ⟨rfl, rfl⟩

end Spelling

theorem guard_bind_eq_some {α : Type} {p : Prop} [Decidable p] {next : Unit → Option α} {a : α} :
    (guard p >>= next) = some a ↔ p ∧ next () = some a := by
  by_cases h : p
  · have passes : (guard p : Option Unit) = some () := if_pos h
    rw [passes]
    exact ⟨fun made => ⟨h, made⟩, And.right⟩
  · have stops : (guard p : Option Unit) = none := if_neg h
    rw [stops]
    exact ⟨nofun, fun both => absurd both.1 h⟩

/-- A text of the grammar is read exactly within the limits, as the decimal of its spelling. -/
theorem ofText?_eq_some_iff {text : String} {s : Spelling} (spelled : s.text = text.toList)
    {d : Decimal} : ofText? text = some d ↔ s.InLimits ∧ d = s.decimal := by
  have limits : s.InLimits ↔ (inRange s.literal && inRange (s.literal - s.places)) = true ∧
      (s.significand ≠ 0 → inRange (s.literal - s.places + s.trailing) = true) := by
    rw [Bool.and_eq_true, inRange_iff, inRange_iff, inRange_iff]
    exact ⟨fun h => ⟨⟨h.literal, h.point⟩, h.last⟩, fun h => ⟨h.1.1, h.1.2, h.2⟩⟩
  rw [ofText?, ← spelled, s.parts?_text, Option.bind_eq_bind, Option.bind_some]
  simp only [guard_bind_eq_some]
  rw [limits, and_assoc]
  refine and_congr_right fun _ => ?_
  change (if s.significand = 0 then _ else _) = _ ↔ _
  by_cases zero : s.significand = 0
  · rw [if_pos zero, Spelling.decimal, if_pos zero]
    exact ⟨fun h => ⟨absurd zero, (Option.some.inj h).symm⟩, fun h => congrArg some h.2.symm⟩
  · obtain ⟨c, j, last, split⟩ := exists_coefficient (Nat.pos_of_ne_zero zero)
    obtain ⟨trailing, decimal⟩ := Spelling.decimal_of_coefficient last split
    rw [if_neg zero, guard_bind_eq_some, decimal, trailing]
    change (inRange (s.literal - s.places + trailingZeros s.significand) = true ∧
      some (Decimal.mk s.sign.negative (s.significand / Nat.pow 10 (trailingZeros s.significand))
        (s.literal - s.places + trailingZeros s.significand)) = some d) ↔ _
    have kept : s.significand / Nat.pow 10 j = c := by
      rw [split]
      exact Nat.mul_div_cancel c (Nat.pow_pos (by decide))
    rw [split, trailingZeros_mul last, ← split, kept]
    exact ⟨fun h => ⟨fun _ => h.1, (Option.some.inj h.2).symm⟩,
      fun h => ⟨h.1 zero, congrArg some h.2.symm⟩⟩

theorem ofText?_eq_none {text : String} (h : ∀ s : Spelling, s.text = text.toList → ¬ s.InLimits) :
    ofText? text = none := by
  cases read : ofText? text with
  | none => rfl
  | some d =>
    obtain ⟨parts, found, -⟩ := Option.bind_eq_some_iff.mp read
    obtain ⟨s, spelled, -⟩ := parts?_eq_some_iff.mp found
    exact absurd ((ofText?_eq_some_iff spelled).mp read).1 (h s spelled)

end LedgerWire.Decimal
