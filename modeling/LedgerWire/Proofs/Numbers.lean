import LedgerWire.Proofs.LeafRendering
import LedgerWire.Proofs.LeafReading
import LedgerWire.Proofs.Scaling

namespace LedgerWire.Quantity
open Decimal (Spelling Normal shownExponent)

structure Holds (q : Quantity) (m e : Int) : Prop where
  mantissa : q.mantissa.toInt = m
  exponent : q.exponent.toInt = e

theorem holds_zero : zero.Holds 0 (-2 ^ 31) := ⟨by decide, by decide⟩

theorem holds_signed {negative : Bool} {m : Nat} {e : Int} (bound : m < 10 ^ 16)
    (range : -32768 ≤ e ∧ e ≤ 32768) :
    Holds ⟨Int64.ofInt (if negative then -m else m), Int32.ofInt e⟩
      (if negative then -m else m) e :=
  ⟨Int64.toInt_ofInt_of_le (by split <;> omega) (by split <;> omega),
    Int32.toInt_ofInt_of_le (by omega) (by omega)⟩

section Outcomes
variable {text : String} {d : Decimal}

theorem ofText_of_none (read : Decimal.ofText? text = none) :
    ofText text = .error (.malformed typeName (.notDecimal text)) := by
  rw [ofText, read]

theorem ofText_of_zero (read : Decimal.ofText? text = some d) (none : d.coefficient = 0) :
    ofText text = .ok zero :=
  ofText_eq_ok.mpr ⟨d, read, .inl ⟨by simp [Decimal.isZero, none], rfl⟩⟩

theorem ofText_of_many (read : Decimal.ofText? text = some d) (many : 16 < d.digitCount) :
    ofText text = .error (.imprecise (.digits typeName d.digitCount)) := by
  rw [ofText, read]
  simp only [Decimal.isZero_of_many many, Decimal.normalize_of_many typeName many, bind,
    Except.bind]
  rfl

section Normalized
variable {m : Nat} {e : Int} (read : Decimal.ofText? text = some d) (nonzero : d.isZero = false)
  (normal : d.normalize typeName = .ok (m, e))
include read nonzero normal

theorem ofText_of_normalize (upper : e ≤ maxExponent) :
    ofText text = .ok (if e < minExponent then zero
      else ⟨Int64.ofInt (if d.negative then -m else m), Int32.ofInt e⟩) :=
  ofText_eq_ok.mpr ⟨d, read, .inr ⟨nonzero, m, e, normal, upper, rfl⟩⟩

theorem ofText_of_large (large : maxExponent < e) :
    ofText text = .error (.overflow (.number text)) := by
  rw [ofText, read]
  simp only [nonzero, normal, bind, Except.bind, if_pos large]
  rfl

end Normalized

end Outcomes

/-- What becomes of a spelled value. -/
structure NumberAs (text : String) (s : Spelling) (result : Except Error Quantity) : Prop where
  zero : s.value = 0 → ∃ q, result = .ok q ∧ q.Holds 0 (-2 ^ 31)
  fits : ∀ negative m e, Normal s.value negative m e → -32768 ≤ e → e ≤ 32768 →
    ∃ q, result = .ok q ∧ q.Holds (if negative then -m else m) e
  large : ∀ negative m e, Normal s.value negative m e → 32768 < e →
    result = .error (.overflow (.number text))
  small : ∀ negative m e, Normal s.value negative m e → e < -32768 →
    ∃ q, result = .ok q ∧ q.Holds 0 (-2 ^ 31)
  long : 16 < s.significant → result = .error (.imprecise (.digits typeName s.significant))

theorem numberAs {text : String} {s : Spelling} (spelled : s.text = text.toList)
    (limits : s.InLimits) : NumberAs text s (ofText text) := by
  have read := (Decimal.ofText?_eq_some_iff spelled).mpr ⟨limits, rfl⟩
  refine ⟨fun zero => ?_, fun negative m e normal lower upper => ?_,
    fun negative m e normal upper => ?_, fun negative m e normal lower => ?_, fun many => ?_⟩
  · exact ⟨_, ofText_of_zero read (Spelling.coefficient_of_zero zero), holds_zero⟩
  · obtain ⟨nonzero, rfl, made⟩ := Spelling.normalize_of_normal typeName normal
    have kept : ¬ e < minExponent := Int.not_lt.mpr lower
    rw [ofText_of_normalize read nonzero made upper, if_neg kept]
    exact ⟨_, rfl, holds_signed normal.upper ⟨lower, upper⟩⟩
  · obtain ⟨nonzero, -, made⟩ := Spelling.normalize_of_normal typeName normal
    exact ofText_of_large read nonzero made upper
  · obtain ⟨nonzero, -, made⟩ := Spelling.normalize_of_normal typeName normal
    have low : e < minExponent := lower
    have bounded : e ≤ maxExponent := Int.le_trans (Int.le_of_lt lower) (by decide)
    rw [ofText_of_normalize read nonzero made bounded, if_pos low]
    exact ⟨_, rfl, holds_zero⟩
  · have nonzero : s.value ≠ 0 := Spelling.value_ne_zero_of_significant (by omega)
    have count := (s.digitCount_decimal nonzero).2
    rw [ofText_of_many read (by omega), count]

/-- A number is read back from its twelve bytes, whatever follows them, and built again from its
rendering. -/
structure Survives (q : Quantity) : Prop where
  length : q.toBytes.length = 12
  read : ∀ announced, Announces announced 12 → Reads (read announced) q.toBytes q
  rebuilt : ofJson q.toJson = .ok q

theorem Settled.survives {q : Quantity} (h : q.Settled) : q.Survives where
  length := by simp [toBytes]
  read _ fits := q.read_toBytes fits
  rebuilt := ofJson_toJson h

/-- A text becomes the number that it spells, within the limits of its exponents, or is refused for
the first reason that applies; only what is below the exponents loses its value and becomes zero.
The value is scaled without leaving the words of the machine. Any other text is no decimal. -/
theorem number_exactly (text : String) :
    (∀ s : Spelling, s.text = text.toList → s.InLimits →
      NumberAs text s (ofJson (.string text)) ∧
      (s.value ≠ 0 → ((∃ negative m e, Normal s.value negative m e) ↔ s.significant ≤ 16) ∧
        Decimal.ScaledExactly s)) ∧
    ((∀ s : Spelling, s.text = text.toList → ¬ s.InLimits) →
      ofJson (.string text) = .error (.malformed typeName (.notDecimal text))) ∧
    (∀ q, ofJson (.string text) = .ok q → q.Survives) := by
  refine ⟨fun s spelled limits => ⟨numberAs spelled limits, fun nonzero => ?_⟩,
    fun unspelled => ofText_of_none (Decimal.ofText?_eq_none unspelled),
    fun q made => (settled_of_ofJson made).survives⟩
  exact ⟨Decimal.exists_normal_iff nonzero, Decimal.scaledExactly limits nonzero⟩

def leastText : String := "-0.99999999999999990e32784"

def leastSpelling : Spelling where
  sign := .minus
  whole := ['0']
  fraction := some "99999999999999990".toList
  exponent := some (shownExponent .absent 32784)
  valid := by decide

theorem number_exactly_least :
    leastSpelling.text = leastText.toList ∧ leastSpelling.InLimits ∧
    Normal leastSpelling.value true 9999999999999999 32768 ∧
    ∃ q, ofJson (.string leastText) = .ok q ∧ q.Holds (-9999999999999999) 32768 ∧ q.Survives := by
  have spelled : leastSpelling.text = leastText.toList := by decide
  have limits : leastSpelling.InLimits := ⟨by decide, by decide, fun _ => by decide⟩
  have normal : Normal leastSpelling.value true 9999999999999999 32768 := by
    refine ⟨by decide, by decide, ?_⟩
    have sign : leastSpelling.sign.negative = true := by decide
    have significand : leastSpelling.significand = 99999999999999990 := by decide
    have exponent : leastSpelling.literal - leastSpelling.places = 32768 - 1 := by decide
    rw [Spelling.value, sign, significand, exponent, zpow_sub_one₀ (by norm_num)]
    generalize (10 : ℚ) ^ (32768 : Int) = power
    push_cast
    ring
  obtain ⟨outcome, -, survives⟩ := number_exactly leastText
  obtain ⟨q, made, holds⟩ :=
    (outcome leastSpelling spelled limits).1.fits true _ _ normal (by decide) (by decide)
  exact ⟨spelled, limits, normal, q, made, holds, survives q made⟩

end LedgerWire.Quantity
