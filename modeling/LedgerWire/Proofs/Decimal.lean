import LedgerWire.Proofs.DecimalReading

namespace LedgerWire.Decimal
open Text (isDigits natOfDigits)

theorem length_toDigits_eq_iff {n k : Nat} (positive : 0 < n) (h : 0 < k) :
    (Nat.toDigits 10 n).length = k ↔ 10 ^ (k - 1) ≤ n ∧ n < 10 ^ k := by
  have some_digit : 0 < (Nat.toDigits 10 n).length := Nat.length_toDigits_pos
  have upper := Nat.length_toDigits_le_iff (b := 10) (n := n) (by decide) h
  by_cases one : k = 1
  · subst one
    rw [Nat.sub_self, Nat.pow_zero]
    omega
  · have lower := Nat.length_toDigits_le_iff (b := 10) (n := n) (k := k - 1) (by decide) (by omega)
    omega

theorem length_toDigits_le {n k : Nat} (positive : 0 < k) (h : n < 10 ^ k) :
    (Nat.toDigits 10 n).length ≤ k :=
  (Nat.length_toDigits_le_iff (by decide) positive).mpr h

theorem length_toDigits_mul {c : Nat} (h : 0 < c) (j : Nat) :
    (Nat.toDigits 10 (c * 10 ^ j)).length = (Nat.toDigits 10 c).length + j := by
  have some_digit : 0 < (Nat.toDigits 10 c).length := Nat.length_toDigits_pos
  obtain ⟨lower, upper⟩ := (length_toDigits_eq_iff h some_digit).mp rfl
  have power : 0 < 10 ^ j := Nat.pow_pos (by decide)
  refine (length_toDigits_eq_iff (Nat.mul_pos h power) (by omega)).mpr ⟨?_, ?_⟩
  · rw [show (Nat.toDigits 10 c).length + j - 1 = (Nat.toDigits 10 c).length - 1 + j by omega,
      Nat.pow_add]
    exact Nat.mul_le_mul_right _ lower
  · rw [Nat.pow_add]
    exact Nat.mul_lt_mul_of_pos_right upper power

theorem normalize_eq_ok {type : String} {d : Decimal} (nonzero : d.coefficient ≠ 0) {m : Nat}
    {e : Int} : d.normalize type = .ok (m, e) ↔
      ∃ shift : Nat, m = d.coefficient * 10 ^ shift ∧ e = d.exponent - shift ∧ 10 ^ 15 ≤ m ∧
        m < 10 ^ 16 := by
  have positive : 0 < d.coefficient := Nat.pos_of_ne_zero nonzero
  have some_digit : 0 < (Nat.toDigits 10 d.coefficient).length := Nat.length_toDigits_pos
  have counted (shift : Nat) := length_toDigits_mul positive shift
  have sixteen (n : Nat) (h : 0 < n) := length_toDigits_eq_iff (k := 16) h (by decide)
  have power (shift : Nat) : 0 < d.coefficient * 10 ^ shift :=
    Nat.mul_pos positive (Nat.pow_pos (by decide))
  simp only [normalize, digitCount, if_neg nonzero, mantissaDigits]
  constructor
  · intro h
    split at h
    · cases h
      refine ⟨16 - (Nat.toDigits 10 d.coefficient).length, rfl, rfl, ?_⟩
      apply (sixteen _ (power _)).mp
      rw [counted]
      omega
    · cases h
  · rintro ⟨shift, rfl, rfl, bounds⟩
    have total := (sixteen _ (power shift)).mpr bounds
    rw [counted] at total
    have same : 16 - (Nat.toDigits 10 d.coefficient).length = shift := by omega
    rw [if_pos (by omega), same]
    rfl

theorem ofText?_spelling (s : Spelling) {c j p : Nat} {x : Int} (literal : s.literal = x)
    (places : s.places = p) (last : c % 10 ≠ 0) (value : s.significand = c * 10 ^ j)
    (small : -100000 ≤ x ∧ x ≤ 100000 ∧ p ≤ 100 ∧ j ≤ 100) :
    ofText? (String.ofList s.text) = some ⟨s.sign.negative, c, x - p + j⟩ := by
  obtain ⟨trailing, decimal⟩ := Spelling.decimal_of_coefficient last value
  rw [literal, places] at decimal
  have limits : s.InLimits := by
    refine ⟨?_, ?_, fun _ => ?_⟩ <;> simp only [Fits64, literal, places, trailing] <;> omega
  exact (ofText?_eq_some_iff (String.toList_ofList).symm).mpr ⟨limits, decimal.symm⟩

/-- The text is read as a decimal with this sign, mantissa and exponent. -/
def Writes (text : String) (negative : Bool) (m : Nat) (e : Int) : Prop :=
  ∃ d, ofText? text = some d ∧ d.negative = negative ∧ d.coefficient ≠ 0 ∧
    ∀ type, d.normalize type = .ok (m, e)

/-- Sign, mantissa and exponent of a spelling: the same number stands in front of the zeros that end
its digits and of those that end the mantissa. All exponents are far from the limits. -/
structure Spelling.StandsFor (s : Spelling) (negative : Bool) (m : Nat) (e : Int) : Prop where
  sign : s.sign = .ofNegative negative
  digits : ∃ u z k : Nat, z ≤ 50 ∧ s.significand = u * 10 ^ z ∧ m = u * 10 ^ k ∧
    e = s.literal - s.places + z - k
  small : -100000 ≤ s.literal ∧ s.literal ≤ 100000 ∧ s.places ≤ 50

theorem Spelling.StandsFor.writes {s : Spelling} {negative : Bool} {m : Nat} {e : Int}
    (h : s.StandsFor negative m e) (bounds : 10 ^ 15 ≤ m ∧ m < 10 ^ 16) :
    Writes (String.ofList s.text) negative m e := by
  obtain ⟨u, z, k, few_zeros, value, mantissa, rfl⟩ := h.digits
  have small := h.small
  have positive : 0 < u := by
    by_contra zero
    obtain rfl : u = 0 := by omega
    omega
  obtain ⟨c, i, last, rfl⟩ := exists_coefficient positive
  have whole_mantissa : m = c * 10 ^ (i + k) := by rw [mantissa, Nat.pow_add, Nat.mul_assoc]
  have few : i + k < 16 := by
    apply (Nat.pow_lt_pow_iff_right (a := 10) (by decide)).mp
    have one : 1 * 10 ^ (i + k) ≤ c * 10 ^ (i + k) := Nat.mul_le_mul_right _ (by omega)
    omega
  have whole_value : s.significand = c * 10 ^ (i + z) := by
    rw [value, Nat.pow_add, Nat.mul_assoc]
  have read := ofText?_spelling s rfl rfl last whole_value (by omega)
  refine ⟨_, read, ?_, by simp; omega, fun type => ?_⟩
  · rw [h.sign, Sign.negative_ofNegative]
  · rw [normalize_eq_ok (by simp; omega)]
    exact ⟨i + k, whole_mantissa, by simp; omega, bounds⟩

def shownExponent (sign : Sign) (n : Nat) : WrittenExponent where
  mark := 'e'
  sign := sign
  digits := Nat.toDigits 10 n
  marked := .inl rfl
  valid := Text.isDigits_toDigits n

theorem value_shownExponent (sign : Sign) (n : Nat) :
    exponentValue (some (shownExponent sign n)) = sign.apply n :=
  congrArg sign.apply (Text.natOfDigits_toDigits n)

theorem text_shownExponent (sign : Sign) (n : Nat) :
    exponentText (some (shownExponent sign n)) = 'e' :: (sign.text ++ Nat.toDigits 10 n) := rfl

theorem apply_ofNegative (n : Int) : (Sign.ofNegative (n < 0)).apply n.natAbs = n := by
  rw [Sign.apply, Sign.negative_ofNegative]
  simp only [decide_eq_true_eq]
  split <;> omega

theorem toList_toString (n : Nat) : (toString n).toList = Nat.toDigits 10 n :=
  Nat.toList_repr

theorem toList_toString_int (i : Int) :
    (toString i).toList = (if i < 0 then ['-'] else []) ++ Nat.toDigits 10 i.natAbs := by
  cases i with
  | ofNat n =>
    change (Nat.repr n).toList = _
    simp [Nat.toList_repr]
  | negSucc n =>
    change ("-" ++ Nat.repr (n + 1)).toList = _
    simp [Nat.toList_repr]

theorem writes_exponent {i e : Int} (bounds : 10 ^ 15 ≤ i.natAbs ∧ i.natAbs < 10 ^ 16)
    (range : -90000 ≤ e ∧ e ≤ 90000) :
    Writes (toString i ++ "e" ++ toString e) (decide (i < 0)) i.natAbs e := by
  have literal : exponentValue (some (shownExponent (.ofNegative (e < 0)) e.natAbs)) = e := by
    rw [value_shownExponent, apply_ofNegative]
  have valid : isDigits (Nat.toDigits 10 i.natAbs ++ []) = true := by
    rw [List.append_nil, Text.isDigits_toDigits]
  let s : Spelling := ⟨.ofNegative (i < 0), Nat.toDigits 10 i.natAbs, none,
    some (shownExponent (.ofNegative (e < 0)) e.natAbs), valid⟩
  have significand : s.significand = i.natAbs * 10 ^ 0 := by
    change natOfDigits (Nat.toDigits 10 i.natAbs ++ []) = _
    rw [List.append_nil, Text.natOfDigits_toDigits, Nat.pow_zero, Nat.mul_one]
  have places : s.places = 0 := rfl
  have read : s.literal = e := literal
  have stands : s.StandsFor (i < 0) i.natAbs e :=
    ⟨rfl, ⟨i.natAbs, 0, 0, by decide, significand, by rw [Nat.pow_zero, Nat.mul_one], by omega⟩,
      by omega⟩
  have text : toString i ++ "e" ++ toString e = String.ofList s.text := by
    apply String.toList_inj.mp
    rw [String.toList_append, String.toList_append, toList_toString_int, toList_toString_int]
    simp [s, Spelling.text, pointText, text_shownExponent, Sign.text_ofNegative]
  rw [text]
  exact stands.writes bounds

namespace Spelling

theorem inLimits_of_whole {s : Spelling} (literal : s.literal = 0) (places : s.places = 0)
    (bound : s.significand < 10 ^ 20) : s.InLimits := by
  refine ⟨by rw [literal]; decide, by rw [literal, places]; decide, fun nonzero => ?_⟩
  obtain ⟨c, j, last, split⟩ := exists_coefficient (Nat.pos_of_ne_zero nonzero)
  have few : j < 20 := by
    apply (Nat.pow_lt_pow_iff_right (a := 10) (by decide)).mp
    have one : 1 * 10 ^ j ≤ c * 10 ^ j := Nat.mul_le_mul_right _ (by omega)
    omega
  simp only [Fits64, literal, places, (decimal_of_coefficient last split).1]
  omega

def plain (digits : List Char) (valid : isDigits digits = true) : Spelling where
  sign := .absent
  whole := digits
  fraction := none
  exponent := none
  valid := by rwa [Option.getD_none, List.append_nil]

variable {digits : List Char} (valid : isDigits digits = true)

theorem text_plain : (plain digits valid).text = digits := by
  simp [text, plain, Sign.text, pointText, exponentText]

theorem significand_plain : (plain digits valid).significand = natOfDigits digits := by
  rw [significand, Spelling.digits, plain, Option.getD_none, List.append_nil]

def integer (negative : Bool) (n : Nat) : Spelling :=
  { plain (Nat.toDigits 10 n) (Text.isDigits_toDigits n) with sign := .ofNegative negative }

theorem text_integer (negative : Bool) (n : Nat) :
    (integer negative n).text = (if negative then ['-'] else []) ++ Nat.toDigits 10 n := by
  simp [text, integer, plain, Sign.text_ofNegative, pointText, exponentText]

theorem significand_integer (negative : Bool) (n : Nat) :
    (integer negative n).significand = n :=
  (significand_plain (Text.isDigits_toDigits n)).trans (Text.natOfDigits_toDigits n)

theorem integer_inj {negative other : Bool} {m n : Nat}
    (same : (integer negative m).text = (integer other n).text) : negative = other ∧ m = n := by
  have read := (integer negative m).parts?_text
  rw [same, (integer other n).parts?_text, Option.some.injEq] at read
  have sign : other = negative := by
    have signs := congrArg Parts.negative read
    simpa [parts, integer, Sign.negative_ofNegative] using signs
  have digits := congrArg (natOfDigits ·.whole) read
  simp only [parts, integer, plain, Text.natOfDigits_toDigits] at digits
  exact ⟨sign.symm, digits.symm⟩

end Spelling

theorem ofText?_digits {text : String} (digits : isDigits text.toList = true)
    (bound : natOfDigits text.toList < 10 ^ 20) :
    ∃ d, ofText? text = some d ∧ (d.isZero = false → 0 ≤ d.exponent ∧ d.negative = false ∧
      d.leadingExponent = (Nat.toDigits 10 (natOfDigits text.toList)).length - 1) := by
  have value := Spelling.significand_plain digits
  have limits :=
    Spelling.inLimits_of_whole (s := .plain text.toList digits) rfl rfl (by rwa [value])
  refine ⟨_, (ofText?_eq_some_iff (Spelling.text_plain digits)).mpr ⟨limits, rfl⟩, fun filled => ?_⟩
  by_cases zero : natOfDigits text.toList = 0
  · rw [Spelling.decimal, if_pos (value.trans zero)] at filled
    cases filled
  · obtain ⟨c, j, last, split⟩ := exists_coefficient (Nat.pos_of_ne_zero zero)
    have decimal : (Spelling.plain text.toList digits).decimal = ⟨false, c, 0 - 0 + j⟩ :=
      (Spelling.decimal_of_coefficient last (value.trans split)).2
    have count := length_toDigits_mul (show 0 < c by omega) j
    rw [decimal, split, count]
    refine ⟨by simp, rfl, ?_⟩
    simp only [leadingExponent, digitCount, if_neg (show c ≠ 0 by omega)]
    omega

end LedgerWire.Decimal
