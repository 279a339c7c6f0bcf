import Mathlib.Algebra.Order.Field.Power
import Mathlib.Algebra.Order.Ring.Rat
import Mathlib.Data.Int.Log
import Mathlib.Data.Rat.Floor
import Mathlib.Tactic.FieldSimp
import Mathlib.Tactic.Linarith
import Mathlib.Tactic.Positivity
import LedgerWire.Proofs.Decimal

/-!
The rational number that a decimal text spells, and how much of it survives reading: a text within
the limits of its exponents is read as a decimal of exactly its value, and the mantissa of sixteen
digits that a decimal is given, if any, is the only one of that value.
-/

namespace LedgerWire.Decimal
open Text (isDigits natOfDigits)

theorem natOfDigits_lt {digits : List Char} (h : digits.all Char.isDigit = true) :
    natOfDigits digits < 10 ^ digits.length := by
  induction digits with
  | nil => decide
  | cons c digits ih =>
    rw [List.all_cons, Bool.and_eq_true] at h
    have first := (digit_bounds h.1).1
    have rest := ih h.2
    rw [← List.singleton_append, natOfDigits_append, List.length_append, List.length_singleton,
      Nat.pow_add]
    have room : (natOfDigits [c] + 1) * 10 ^ digits.length ≤ 10 * 10 ^ digits.length :=
      Nat.mul_le_mul_right _ first
    rw [Nat.add_mul, Nat.one_mul] at room
    omega

theorem natOfDigits_ge {c : Char} (digits : List Char) (h : c.isDigit = true)
    (nonzero : c ≠ '0') :
    10 ^ digits.length ≤ natOfDigits (c :: digits) := by
  have first : 0 < natOfDigits [c] :=
    Nat.pos_of_ne_zero fun zero => nonzero ((digit_bounds h).2.mp zero)
  have lower : 1 * 10 ^ digits.length ≤ natOfDigits [c] * 10 ^ digits.length :=
    Nat.mul_le_mul_right _ first
  rw [← List.singleton_append, natOfDigits_append]
  omega

theorem length_toDigits_natOfDigits {c : Char} {digits : List Char}
    (h : (c :: digits).all Char.isDigit = true) (nonzero : c ≠ '0') :
    (Nat.toDigits 10 (natOfDigits (c :: digits))).length = (c :: digits).length := by
  have upper := natOfDigits_lt h
  rw [List.all_cons, Bool.and_eq_true] at h
  have lower := natOfDigits_ge digits h.1 nonzero
  have power : 0 < 10 ^ digits.length := Nat.pow_pos (by decide)
  exact (length_toDigits_eq_iff (by omega) (by simp)).mpr ⟨lower, upper⟩

theorem zeros_append_dropWhile (digits : List Char) :
    ∃ k, List.replicate k '0' ++ digits.dropWhile (· == '0') = digits := by
  refine ⟨(digits.takeWhile (· == '0')).length, ?_⟩
  have zeros : digits.takeWhile (· == '0') =
      List.replicate (digits.takeWhile (· == '0')).length '0' :=
    List.eq_replicate_iff.mpr
      ⟨rfl, fun c member => by simpa using List.mem_takeWhile_imp member⟩
  rw [← zeros, List.takeWhile_append_dropWhile]

theorem length_toDigits_stripZeros {digits : List Char} (h : digits.all Char.isDigit = true)
    (nonzero : natOfDigits digits ≠ 0) :
    (Nat.toDigits 10 (natOfDigits (stripZeros digits).1)).length =
      (stripZeros (digits.dropWhile (· == '0'))).1.length := by
  obtain ⟨k, split⟩ := zeros_append_dropWhile digits
  have first := List.head?_dropWhile_not (· == '0') digits
  generalize digits.dropWhile (· == '0') = stripped at *
  have value : natOfDigits stripped = natOfDigits digits := by
    rw [← split, natOfDigits_zeros_append]
  have stripped_digits : stripped.all Char.isDigit = true := by
    rw [← split, List.all_append, Bool.and_eq_true] at h
    exact h.2
  have whole := stripZeros_append stripped
  obtain ⟨last, same⟩ := natOfDigits_stripZeros stripped_digits (value ▸ nonzero)
  obtain ⟨digits_last, digits_same⟩ := natOfDigits_stripZeros h nonzero
  have coefficient := (coefficient_unique last digits_last
    (same.symm.trans (value.trans digits_same))).1
  rw [← coefficient]
  cases core : (stripZeros stripped).1 with
  | nil =>
    rw [core] at last
    exact absurd rfl last
  | cons c rest =>
    rw [core] at whole
    rw [← whole, List.all_append, Bool.and_eq_true] at stripped_digits
    refine length_toDigits_natOfDigits stripped_digits.1 fun zero => ?_
    rw [← whole, zero] at first
    cases first

theorem stripZeros_of_zero {digits : List Char} (h : digits.all Char.isDigit = true)
    (zero : natOfDigits digits = 0) : (stripZeros (digits.dropWhile (· == '0'))).1 = [] := by
  obtain ⟨k, split⟩ := zeros_append_dropWhile digits
  have first := List.head?_dropWhile_not (· == '0') digits
  cases stripped : digits.dropWhile (· == '0') with
  | nil => rfl
  | cons c rest =>
    rw [stripped] at first split
    rw [← split, List.all_append, List.all_cons, Bool.and_eq_true, Bool.and_eq_true] at h
    have lower := natOfDigits_ge rest h.2.1 (by simpa using first)
    have power : 0 < 10 ^ rest.length := Nat.pow_pos (by decide)
    rw [← split, natOfDigits_zeros_append] at zero
    omega

def unit (negative : Bool) : ℚ := if negative then -1 else 1

def value (d : Decimal) : ℚ := unit d.negative * d.coefficient * 10 ^ d.exponent

theorem unit_ne_zero (negative : Bool) : unit negative ≠ 0 := by
  cases negative <;> simp [unit]

theorem abs_unit (negative : Bool) : |unit negative| = 1 := by
  cases negative <;> simp [unit]

theorem abs_value (d : Decimal) : |d.value| = d.coefficient * 10 ^ d.exponent := by
  have power : (0 : ℚ) < 10 ^ d.exponent := by positivity
  rw [value, abs_mul, abs_mul, abs_unit, one_mul, Nat.abs_cast, abs_of_pos power]

theorem coefficient_pos {d : Decimal} (nonzero : d.coefficient ≠ 0) : (0 : ℚ) < d.coefficient :=
  Nat.cast_pos.mpr (Nat.pos_of_ne_zero nonzero)

theorem value_neg_iff {d : Decimal} (nonzero : d.coefficient ≠ 0) :
    d.value < 0 ↔ d.negative = true := by
  have coefficient := coefficient_pos nonzero
  have size : (0 : ℚ) < d.coefficient * 10 ^ d.exponent := by positivity
  rw [value, mul_assoc]
  cases d.negative <;> simp [unit, size, size.le]

theorem whole_iff {d : Decimal} (last : d.coefficient % 10 ≠ 0) :
    (∃ n : ℤ, d.value = n) ↔ 0 ≤ d.exponent := by
  constructor
  · rintro ⟨n, whole⟩
    by_contra negative
    obtain ⟨places, behind⟩ : ∃ places : Nat, d.exponent = -(places + 1 : Nat) :=
      ⟨(-d.exponent - 1).toNat, by omega⟩
    have size : (d.coefficient : ℚ) = n.natAbs * 10 ^ (places + 1) := by
      have same := d.abs_value
      rw [whole, behind, zpow_neg, zpow_natCast] at same
      rw [Nat.cast_natAbs, Int.cast_abs, same]
      field_simp
    have multiple : d.coefficient = n.natAbs * 10 ^ (places + 1) := by exact_mod_cast size
    rw [multiple, Nat.pow_succ, ← Nat.mul_assoc] at last
    exact last (Nat.mul_mod_left _ 10)
  · intro whole
    obtain ⟨shift, exponent⟩ := Int.eq_ofNat_of_zero_le whole
    refine ⟨(if d.negative then -1 else 1) * d.coefficient * 10 ^ shift, ?_⟩
    rw [value, exponent, unit]
    push_cast
    rw [zpow_natCast]

namespace Spelling

def value (s : Spelling) : ℚ :=
  unit s.sign.negative * s.significand * 10 ^ (s.literal - s.places)

/-- How many digits stand between the zeros at the two ends. -/
def significant (s : Spelling) : Nat := (stripZeros (s.digits.dropWhile (· == '0'))).1.length

variable {s : Spelling}

theorem value_eq_zero_iff : s.value = 0 ↔ s.significand = 0 := by
  have power : (10 : ℚ) ^ (s.literal - s.places) ≠ 0 := zpow_ne_zero _ (by norm_num)
  simp [value, unit_ne_zero, power]

theorem value_of_whole (literal : s.literal = 0) (places : s.places = 0) :
    s.value = unit s.sign.negative * s.significand := by
  rw [value, literal, places, Int.natCast_zero, Int.sub_zero, zpow_zero, mul_one]

theorem value_integer (negative : Bool) (n : Nat) :
    (integer negative n).value = unit negative * n := by
  have sign : (integer negative n).sign.negative = negative := Sign.negative_ofNegative negative
  rw [value_of_whole rfl rfl, significand_integer, sign]

theorem StandsFor.value {negative : Bool} {m : Nat} {e : Int}
    (h : s.StandsFor negative m e) : s.value = unit negative * m * 10 ^ e := by
  obtain ⟨u, z, k, -, significand, rfl, rfl⟩ := h.digits
  have ten : (10 : ℚ) ≠ 0 := by norm_num
  rw [Spelling.value, h.sign, Sign.negative_ofNegative, significand]
  generalize s.literal - s.places = x
  rw [zpow_sub₀ ten, zpow_add₀ ten, zpow_natCast, zpow_natCast]
  push_cast
  field_simp

theorem value_decimal : s.decimal.value = s.value := by
  by_cases zero : s.significand = 0
  · rw [decimal, if_pos zero, Decimal.value, value, zero]
    simp
  · obtain ⟨-, split⟩ := natOfDigits_stripZeros s.all_digits zero
    rw [decimal, if_neg zero, Decimal.value, value, significand, split,
      zpow_add₀ (by norm_num), zpow_natCast]
    push_cast
    rw [trailing]
    ring

theorem digitCount_decimal (nonzero : s.value ≠ 0) :
    s.decimal.coefficient % 10 ≠ 0 ∧ s.decimal.digitCount = s.significant := by
  have zero : s.significand ≠ 0 := fun zero => nonzero (value_eq_zero_iff.mpr zero)
  have last := (natOfDigits_stripZeros all_digits zero).1
  rw [decimal, if_neg zero]
  have filled : natOfDigits (stripZeros s.digits).1 ≠ 0 := fun none => last (by rw [none])
  refine ⟨last, ?_⟩
  rw [digitCount, if_neg filled]
  exact length_toDigits_stripZeros all_digits zero

theorem value_ne_zero_of_significant (h : s.significant ≠ 0) : s.value ≠ 0 := by
  intro zero
  apply h
  rw [significant, stripZeros_of_zero all_digits (value_eq_zero_iff.mp zero)]
  rfl

end Spelling

theorem log_digits {c : Nat} (positive : 0 < c) (e : Int) :
    Int.log 10 ((c : ℚ) * 10 ^ e) = e + ((Nat.toDigits 10 c).length - 1) := by
  have some_digit : 0 < (Nat.toDigits 10 c).length := Nat.length_toDigits_pos
  obtain ⟨lower, upper⟩ := (length_toDigits_eq_iff positive some_digit).mp rfl
  generalize (Nat.toDigits 10 c).length = k at *
  have ten : (10 : ℚ) ≠ 0 := by norm_num
  have power : (0 : ℚ) < 10 ^ e := by positivity
  have number : (0 : ℚ) < c * 10 ^ e := mul_pos (by exact_mod_cast positive) power
  have above : ((10 : Nat) : ℚ) ^ (e + ((k : Int) - 1)) ≤ c * 10 ^ e := by
    rw [show e + ((k : Int) - 1) = ((k - 1 : Nat) : Int) + e by omega, Nat.cast_ofNat,
      zpow_add₀ ten, zpow_natCast]
    exact mul_le_mul_of_nonneg_right (by exact_mod_cast lower) power.le
  have below : (c : ℚ) * 10 ^ e < ((10 : Nat) : ℚ) ^ (e + ((k : Int) - 1) + 1) := by
    rw [show e + ((k : Int) - 1) + 1 = (k : Int) + e by omega, Nat.cast_ofNat, zpow_add₀ ten,
      zpow_natCast]
    exact mul_lt_mul_of_pos_right (by exact_mod_cast upper) power
  rw [Int.zpow_le_iff_le_log (by decide) number] at above
  rw [Int.lt_zpow_iff_log_lt (by decide) number] at below
  omega

theorem leadingExponent_eq {d : Decimal} (nonzero : d.coefficient ≠ 0) :
    d.leadingExponent = Int.log 10 |d.value| := by
  rw [abs_value, log_digits (Nat.pos_of_ne_zero nonzero), leadingExponent, digitCount,
    if_neg nonzero]

theorem le_leadingExponent_iff {d : Decimal} (nonzero : d.coefficient ≠ 0) {k : ℤ} :
    k ≤ d.leadingExponent ↔ 10 ^ k ≤ |d.value| := by
  have coefficient := coefficient_pos nonzero
  have size : 0 < |d.value| := by
    rw [abs_value]
    positivity
  rw [leadingExponent_eq nonzero, ← Int.zpow_le_iff_le_log (by decide) size, Nat.cast_ofNat]

/-- A number written with a mantissa of sixteen digits. -/
structure Normal (x : ℚ) (negative : Bool) (m : Nat) (e : Int) : Prop where
  lower : 10 ^ 15 ≤ m
  upper : m < 10 ^ 16
  value : x = unit negative * m * 10 ^ e

theorem Normal.ne_zero {x : ℚ} {negative : Bool} {m : Nat} {e : Int} (h : Normal x negative m e) :
    x ≠ 0 := by
  have mantissa : (m : ℚ) ≠ 0 := by
    have positive : m ≠ 0 := Nat.ne_of_gt (Nat.lt_of_lt_of_le (by decide) h.lower)
    exact_mod_cast positive
  rw [h.value]
  exact mul_ne_zero (mul_ne_zero (unit_ne_zero negative) mantissa) (zpow_ne_zero e (by norm_num))

theorem Normal.log_abs {x : ℚ} {negative : Bool} {m : Nat} {e : Int} (h : Normal x negative m e) :
    Int.log 10 |x| = e + 15 := by
  have positive : 0 < m := Nat.lt_of_lt_of_le (by decide) h.lower
  have length : (Nat.toDigits 10 m).length = 16 :=
    (length_toDigits_eq_iff positive (by decide)).mpr ⟨h.lower, h.upper⟩
  have shape : |x| = m * 10 ^ e := by
    rw [h.value]
    exact abs_value ⟨negative, m, e⟩
  rw [shape, log_digits positive, length]
  rfl

theorem unit_mul_inj {negative other : Bool} {x y : ℚ} (x_pos : 0 < x) (y_pos : 0 < y)
    (same : unit negative * x = unit other * y) : negative = other ∧ x = y := by
  cases negative <;> cases other <;> simp [unit] at same ⊢ <;> linarith

theorem exists_shift {c m : Nat} {x e : Int} (last : c % 10 ≠ 0)
    (same : (c : ℚ) * 10 ^ x = m * 10 ^ e) :
    ∃ shift : Nat, m = c * 10 ^ shift ∧ e = x - shift := by
  have ten : (10 : ℚ) ≠ 0 := by norm_num
  rcases le_total e x with below | above
  · obtain ⟨shift, rfl⟩ : ∃ shift : Nat, x = e + shift := ⟨(x - e).toNat, by omega⟩
    rw [zpow_add₀ ten, zpow_natCast, mul_comm ((10 : ℚ) ^ e), ← mul_assoc] at same
    have mantissa := mul_right_cancel₀ (zpow_ne_zero e ten) same
    exact ⟨shift, by exact_mod_cast mantissa.symm, by omega⟩
  · obtain ⟨shift, rfl⟩ : ∃ shift : Nat, e = x + shift := ⟨(e - x).toNat, by omega⟩
    rw [zpow_add₀ ten, zpow_natCast, mul_comm ((10 : ℚ) ^ x) (10 ^ shift), ← mul_assoc] at same
    have coefficient : (c : ℚ) = m * 10 ^ shift := mul_right_cancel₀ (zpow_ne_zero x ten) same
    have coefficient : c = m * 10 ^ shift := by exact_mod_cast coefficient
    cases shift with
    | zero => exact ⟨0, by rw [coefficient]; simp, by omega⟩
    | succ shift =>
      rw [coefficient, Nat.pow_succ, ← Nat.mul_assoc] at last
      omega

/-- The sign, the mantissa and the exponent of a number are the only ones of its value. -/
theorem normal_iff (type : String) {d : Decimal} (last : d.coefficient % 10 ≠ 0)
    {negative : Bool} {m : Nat} {e : Int} :
    Normal d.value negative m e ↔ negative = d.negative ∧ d.normalize type = .ok (m, e) := by
  have nonzero : d.coefficient ≠ 0 := by omega
  rw [normalize_eq_ok nonzero]
  constructor
  · intro ⟨lower, upper, value⟩
    rw [Decimal.value, mul_assoc, mul_assoc] at value
    have coefficient := coefficient_pos nonzero
    have mantissa : (0 : ℚ) < m := by
      have positive : 0 < m := by omega
      exact_mod_cast positive
    obtain ⟨sign, same⟩ := unit_mul_inj (by positivity) (by positivity) value
    obtain ⟨shift, digits, exponent⟩ := exists_shift last same
    exact ⟨sign.symm, shift, digits, exponent, lower, upper⟩
  · rintro ⟨rfl, shift, rfl, rfl, lower, upper⟩
    refine ⟨lower, upper, ?_⟩
    rw [Decimal.value, zpow_sub₀ (by norm_num), zpow_natCast]
    push_cast
    field_simp

theorem normalize_of_few (type : String) {d : Decimal} (few : d.digitCount ≤ 16) :
    ∃ m e, d.normalize type = .ok (m, e) :=
  ⟨_, _, if_pos few⟩

theorem isZero_of_many {d : Decimal} (many : 16 < d.digitCount) : d.isZero = false := by
  rw [isZero, beq_eq_false_iff_ne]
  intro none
  rw [digitCount, if_pos none] at many
  omega

theorem normalize_of_many (type : String) {d : Decimal} (many : 16 < d.digitCount) :
    d.normalize type = .error (.imprecise (.digits type d.digitCount)) :=
  if_neg (Nat.not_le.mpr many)

theorem Spelling.coefficient_of_zero {s : Spelling} (zero : s.value = 0) :
    s.decimal.coefficient = 0 := by
  rw [decimal, if_pos (value_eq_zero_iff.mp zero)]

theorem Spelling.normalize_of_normal (type : String) {s : Spelling} {negative : Bool} {m : Nat}
    {e : Int} (normal : Normal s.value negative m e) :
    s.decimal.isZero = false ∧ negative = s.decimal.negative ∧
      s.decimal.normalize type = .ok (m, e) := by
  have last := (s.digitCount_decimal normal.ne_zero).1
  have nonzero : s.decimal.coefficient ≠ 0 := by omega
  rw [← s.value_decimal] at normal
  exact ⟨by simpa [isZero] using nonzero, (normal_iff type last).mp normal⟩

/-- A number other than zero has a mantissa of sixteen digits unless it has more digits. -/
theorem exists_normal_iff {s : Spelling} (nonzero : s.value ≠ 0) :
    (∃ negative m e, Normal s.value negative m e) ↔ s.significant ≤ 16 := by
  obtain ⟨last, count⟩ := s.digitCount_decimal nonzero
  rw [← s.value_decimal, ← count]
  constructor
  · rintro ⟨negative, m, e, normal⟩
    by_contra many
    have refused := normalize_of_many "" (Nat.not_le.mp many)
    rw [((normal_iff "" last).mp normal).2] at refused
    cases refused
  · intro few
    obtain ⟨m, e, normal⟩ := normalize_of_few "" few
    exact ⟨_, m, e, (normal_iff "" last).mpr ⟨rfl, normal⟩⟩

end LedgerWire.Decimal
