import LedgerWire.Proofs.DecimalValues
import LedgerWire.Proofs.LeafRendering

namespace LedgerWire.Amount
open Decimal (Spelling Unpadded)
open Text (isDigits natOfDigits)

/-- An amount of `n` drops, with its bytes and its rendering. -/
structure HoldsDrops (amount : Amount) (n : Nat) : Prop where
  bytes : amount.toBytes = beBytes 8 (2 ^ 62 + n)
  read : ∀ announced, Announces announced 8 → Reads (read announced) amount.toBytes amount
  drops : amount.drops? = some (n : Int)
  rendering : ∃ digits, amount.toJson = .string digits ∧ isDigits digits.toList = true ∧
    natOfDigits digits.toList = n ∧ Unpadded digits.toList

theorem holdsDrops {n : Nat} (bound : n ≤ maxDrops) :
    HoldsDrops (.native true (BitVec.ofNat 62 n)) n := by
  have kept : (BitVec.ofNat 62 n).toNat = n := by
    rw [BitVec.toNat_ofNat]
    exact Nat.mod_eq_of_lt (Nat.lt_of_le_of_lt bound (by decide))
  refine ⟨?_, fun announced fits => ?_, ?_, toString n, ?_, ?_, ?_, ?_⟩
  · rw [toBytes, word, kept]
    rfl
  · have canonical : (native true (BitVec.ofNat 62 n)).Canonical := trivial
    exact read_toBytes canonical (by rwa [toBytes, length_beBytes])
  · rw [drops?, kept]
  · rw [toJson, kept]
    simp
  · rw [Decimal.toList_toString, Text.isDigits_toDigits]
  · rw [Decimal.toList_toString, Text.natOfDigits_toDigits]
  · rw [Decimal.toList_toString]
    exact Decimal.unpadded_toDigits n

section Outcomes
variable {text : String} {d : Decimal}

theorem ofDrops_of_none (read : Decimal.ofText? text = none) :
    ofDrops text = .error (.malformed typeName (.notDrops text)) := by
  rw [ofDrops, read]

theorem ofDrops_of_fraction (read : Decimal.ofText? text = some d) (nonzero : d.isZero = false)
    (behind : d.exponent < 0) : ofDrops text = .error (.imprecise (.fractionalDrops text)) := by
  rw [ofDrops, read]
  simp only [nonzero, Bool.not_false, if_true, if_pos behind]
  rfl

theorem ofDrops_of_negative (read : Decimal.ofText? text = some d) (nonzero : d.isZero = false)
    (whole : 0 ≤ d.exponent) (negative : d.negative = true) :
    ofDrops text = .error (.overflow (.negativeDrops text)) := by
  rw [ofDrops, read]
  simp only [nonzero, Bool.not_false, if_true, if_neg (Int.not_lt.mpr whole), negative]
  rfl

theorem ofDrops_of_large (read : Decimal.ofText? text = some d) (nonzero : d.isZero = false)
    (whole : 0 ≤ d.exponent) (positive : d.negative = false) (large : 17 < d.leadingExponent) :
    ofDrops text = .error (.overflow (.drops text)) := by
  rw [ofDrops, read]
  simp only [nonzero, Bool.not_false, if_true, if_neg (Int.not_lt.mpr whole), positive,
    Bool.false_eq_true, if_false, if_pos large]
  rfl

theorem ofDrops_of_counts (read : Decimal.ofText? text = some d) (counts : CountsDrops d) :
    ofDrops text =
      if isDigits text.toList then
        if capacity 8 ≤ natOfDigits text.toList then .error (.malformed typeName (.tooLarge text))
        else if maxDrops < natOfDigits text.toList then .error (.overflow (.drops text))
        else .ok (.native true (BitVec.ofNat 62 (natOfDigits text.toList)))
      else .error (.malformed typeName (.notPlainDrops text)) := by
  rw [ofDrops, read]
  cases zero : d.isZero
  · obtain ⟨whole, positive, small⟩ := counts zero
    simp only [zero, Bool.not_false, if_true, if_neg (Int.not_lt.mpr whole), positive,
      Bool.false_eq_true, if_false, if_neg (Int.not_lt.mpr small)]
    cases isDigits text.toList <;> rfl
  · simp only [zero, Bool.not_true, Bool.false_eq_true, if_false]
    cases isDigits text.toList <;> rfl

theorem refused_of_not_counts (read : Decimal.ofText? text = some d) (other : ¬ CountsDrops d) :
    ofDrops text = .error (.imprecise (.fractionalDrops text)) ∨
      ofDrops text = .error (.overflow (.negativeDrops text)) ∨
      ofDrops text = .error (.overflow (.drops text)) := by
  rw [CountsDrops, Classical.not_imp] at other
  obtain ⟨nonzero, stopped⟩ := other
  by_cases behind : d.exponent < 0
  · exact .inl (ofDrops_of_fraction read nonzero behind)
  have whole := Int.not_lt.mp behind
  cases negative : d.negative with
  | true => exact .inr (.inl (ofDrops_of_negative read nonzero whole negative))
  | false =>
    have large : 17 < d.leadingExponent :=
      Int.not_le.mp fun few => stopped ⟨whole, negative, few⟩
    exact .inr (.inr (ofDrops_of_large read nonzero whole negative large))

theorem value_of_digits (read : Decimal.ofText? text = some d)
    (digits : isDigits text.toList = true) : d.value = (natOfDigits text.toList : Int) := by
  obtain ⟨-, rfl⟩ := (Decimal.ofText?_eq_some_iff (Spelling.text_plain digits)).mp read
  rw [Spelling.value_decimal, Spelling.value_of_whole rfl rfl, Spelling.significand_plain,
    Int.cast_natCast]
  exact one_mul _

section Whole
variable {n : Int} (nonzero : d.coefficient ≠ 0) (value : d.value = n)
include nonzero value

theorem negative_iff_of_whole : d.negative = true ↔ n < 0 := by
  rw [← Decimal.value_neg_iff nonzero, value, Int.cast_lt_zero]

theorem positive_of_whole (positive : 0 < n) : d.negative = false := by
  rw [← Bool.not_eq_true, negative_iff_of_whole nonzero value]
  omega

theorem large_iff_of_whole (positive : 0 < n) : 17 < d.leadingExponent ↔ 10 ^ 18 ≤ n := by
  have size : |(n : ℚ)| = n := abs_of_pos (Int.cast_pos.mpr positive)
  rw [← Int.add_one_le_iff, Decimal.le_leadingExponent_iff nonzero, value, size]
  exact_mod_cast Iff.rfl

end Whole

theorem natOfDigits_lt_capacity (read : Decimal.ofText? text = some d)
    (digits : isDigits text.toList = true) (counts : CountsDrops d) :
    natOfDigits text.toList < capacity 8 := by
  have value := value_of_digits read digits
  generalize natOfDigits text.toList = n at *
  by_cases none : n = 0
  · rw [none]
    decide
  have nonzero : d.coefficient ≠ 0 := by
    intro zero
    simp [Decimal.value, zero, eq_comm, none] at value
  have few := (counts (by simpa [Decimal.isZero] using nonzero)).2.2
  have small := mt (large_iff_of_whole nonzero value (by omega)).mpr (Int.not_lt.mpr few)
  have bound : (10 : Int) ^ 18 < capacity 8 := by decide
  omega

theorem ofDrops_ne_tooLarge : ofDrops text ≠ .error (.malformed typeName (.tooLarge text)) := by
  cases read : Decimal.ofText? text with
  | none => simp [ofDrops_of_none read]
  | some d =>
    by_cases counts : CountsDrops d
    · cases digits : isDigits text.toList with
      | false => simp [ofDrops_of_counts read counts, digits]
      | true =>
        have bound := natOfDigits_lt_capacity read digits counts
        rw [ofDrops_of_counts read counts, digits, if_pos rfl, if_neg (Nat.not_le.mpr bound)]
        split <;> nofun
    · rcases refused_of_not_counts read counts with refused | refused | refused <;> simp [refused]

/-- A number other than zero on its way through the checks. -/
structure RefusedDrops (text : String) (x : ℚ) (result : Except Error Amount) : Prop where
  fraction : (¬ ∃ n : Int, x = n) → result = .error (.imprecise (.fractionalDrops text))
  negative : ∀ n : Int, x = n → n < 0 → result = .error (.overflow (.negativeDrops text))
  large : ∀ n : Int, x = n → 10 ^ 18 ≤ n → result = .error (.overflow (.drops text))
  tooMany : isDigits text.toList = true → 10 ^ 17 < natOfDigits text.toList →
    result = .error (.overflow (.drops text))
  notPlain : ∀ n : Int, x = n → 0 < n → n < 10 ^ 18 → isDigits text.toList = false →
    result = .error (.malformed typeName (.notPlainDrops text))

section Numbers
variable (read : Decimal.ofText? text = some d) (last : d.coefficient % 10 ≠ 0)

include last in
theorem counts_of_whole {n : Int} (value : d.value = n) (positive : 0 < n) (small : n < 10 ^ 18) :
    CountsDrops d := by
  have nonzero : d.coefficient ≠ 0 := by omega
  intro _
  refine ⟨(Decimal.whole_iff last).mp ⟨n, value⟩, positive_of_whole nonzero value positive, ?_⟩
  exact Int.not_lt.mp fun large =>
    Int.not_le.mpr small ((large_iff_of_whole nonzero value positive).mp large)

include read last

theorem refused_of_large {n : Int} (value : d.value = n) (large : 10 ^ 18 ≤ n) :
    ofDrops text = .error (.overflow (.drops text)) := by
  have nonzero : d.coefficient ≠ 0 := by omega
  have positive : 0 < n := by omega
  apply ofDrops_of_large read (by simpa [Decimal.isZero] using nonzero)
  · exact (Decimal.whole_iff last).mp ⟨n, value⟩
  · exact positive_of_whole nonzero value positive
  · exact (large_iff_of_whole nonzero value positive).mpr large

theorem refused_of_tooMany (digits : isDigits text.toList = true)
    (many : maxDrops < natOfDigits text.toList) :
    ofDrops text = .error (.overflow (.drops text)) := by
  have value := value_of_digits read digits
  by_cases large : (10 : Int) ^ 18 ≤ natOfDigits text.toList
  · exact refused_of_large read last value large
  · have counts := counts_of_whole last value (by omega) (Int.not_le.mp large)
    have in_word := natOfDigits_lt_capacity read digits counts
    rw [ofDrops_of_counts read counts, digits, if_pos rfl, if_neg (Nat.not_le.mpr in_word),
      if_pos many]

theorem refusedDrops : RefusedDrops text d.value (ofDrops text) := by
  have nonzero : d.coefficient ≠ 0 := by omega
  have filled : d.isZero = false := by simpa [Decimal.isZero] using nonzero
  constructor
  · intro fraction
    apply ofDrops_of_fraction read filled
    exact Int.not_le.mp fun behind => fraction ((Decimal.whole_iff last).mpr behind)
  · intro n value negative
    apply ofDrops_of_negative read filled
    · exact (Decimal.whole_iff last).mp ⟨n, value⟩
    · exact (negative_iff_of_whole nonzero value).mpr negative
  · intro n value large
    exact refused_of_large read last value large
  · intro digits many
    exact refused_of_tooMany read last digits many
  · intro n value positive small other
    rw [ofDrops_of_counts read (counts_of_whole last value positive small), other]
    rfl

end Numbers

theorem refusedDrops_of_spelled {s : Spelling} (spelled : s.text = text.toList)
    (limits : s.InLimits) (nonzero : s.value ≠ 0) : RefusedDrops text s.value (ofDrops text) := by
  have read := (Decimal.ofText?_eq_some_iff spelled).mpr ⟨limits, rfl⟩
  rw [← s.value_decimal]
  exact refusedDrops read (s.digitCount_decimal nonzero).1

theorem malformed_of_nothing
    (nothing : ∀ s : Spelling, s.text = text.toList → s.InLimits → s.value = 0) {error : Error}
    (refused : ofDrops text = .error error) :
    error = .malformed typeName (.notDrops text) ∨
      error = .malformed typeName (.notPlainDrops text) := by
  by_cases spelled : ∃ s : Spelling, s.text = text.toList ∧ s.InLimits
  · obtain ⟨s, spelled, limits⟩ := spelled
    have read := (Decimal.ofText?_eq_some_iff spelled).mpr ⟨limits, rfl⟩
    have zero : s.decimal.isZero = true := by
      rw [Spelling.decimal, if_pos (Spelling.value_eq_zero_iff.mp (nothing s spelled limits))]
      rfl
    have counts : CountsDrops s.decimal := by simp [CountsDrops, zero]
    cases digits : isDigits text.toList with
    | false =>
      rw [ofDrops_of_counts read counts, digits] at refused
      exact .inr (Except.error.inj refused).symm
    | true =>
      have value := value_of_digits read digits
      rw [s.value_decimal, nothing s spelled limits] at value
      have none : natOfDigits text.toList = 0 := by exact_mod_cast value.symm
      rw [ofDrops_digits digits (by rw [none]; decide)] at refused
      cases refused
  · have read := Decimal.ofText?_eq_none fun s text limits => spelled ⟨s, text, limits⟩
    exact .inl (Except.error.inj (refused.symm.trans (ofDrops_of_none read)))

end Outcomes

/-- A text makes a native amount exactly if it is plain digits of at most `10 ^ 17`. Any other text
that spells a number other than zero is refused for the first reason that applies, and what is left
for its form. -/
theorem drops_exactly (text : String) :
    ((∃ amount, ofJson (.string text) = .ok amount) ↔
      isDigits text.toList = true ∧ natOfDigits text.toList ≤ 10 ^ 17) ∧
    (∀ amount, ofJson (.string text) = .ok amount →
      HoldsDrops amount (natOfDigits text.toList)) ∧
    ofJson (.string text) ≠ .error (.malformed typeName (.tooLarge text)) ∧
    (∀ s : Spelling, s.text = text.toList → s.InLimits → s.value ≠ 0 →
      RefusedDrops text s.value (ofJson (.string text))) ∧
    ((∀ s : Spelling, s.text = text.toList → s.InLimits → s.value = 0) →
      ∀ error, ofJson (.string text) = .error error →
        error = .malformed typeName (.notDrops text) ∨
          error = .malformed typeName (.notPlainDrops text)) := by
  refine ⟨⟨?_, ?_⟩, ?_, ofDrops_ne_tooLarge, ?_, ?_⟩
  · rintro ⟨amount, made⟩
    obtain ⟨-, -, -, digits, bound, -⟩ := ofDrops_eq_ok.mp made
    exact ⟨digits, bound⟩
  · rintro ⟨digits, bound⟩
    exact ⟨_, ofDrops_digits digits bound⟩
  · intro amount made
    obtain ⟨-, -, -, -, bound, rfl⟩ := ofDrops_eq_ok.mp made
    exact holdsDrops bound
  · exact fun s => refusedDrops_of_spelled
  · exact fun nothing error => malformed_of_nothing nothing

theorem drops_exactly_largest :
    (∃ amount, ofJson (.string "00100000000000000000") = .ok amount ∧
      amount.toBytes = [0x41, 0x63, 0x45, 0x78, 0x5D, 0x8A, 0x00, 0x00]) ∧
    ofJson (.string "00100000000000000001") =
      .error (.overflow (.drops "00100000000000000001")) := by
  constructor
  · obtain ⟨accepts, holds, -⟩ := drops_exactly "00100000000000000000"
    obtain ⟨amount, made⟩ := accepts.mpr (by decide)
    refine ⟨amount, made, ?_⟩
    rw [(holds amount made).bytes]
    decide
  · obtain ⟨-, -, -, refuses, -⟩ := drops_exactly "00100000000000000001"
    have limits : (Spelling.plain "00100000000000000001".toList (by decide)).InLimits :=
      ⟨by decide, by decide, fun _ => by decide⟩
    have nonzero : (Spelling.plain "00100000000000000001".toList (by decide)).value ≠ 0 := by
      rw [ne_eq, Spelling.value_eq_zero_iff]
      decide
    exact (refuses _ (Spelling.text_plain _) limits nonzero).tooMany (by decide) (by decide)

end LedgerWire.Amount
