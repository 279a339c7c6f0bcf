import Mathlib.Logic.Relation
import LedgerWire.Proofs.DecimalValues

/-!
Scaling in machine words. A coefficient that 128 bits hold is brought to sixteen digits one zero at
a time, while an exponent of 64 bits is counted along and stays at its bounds. No round leaves the
words, a round drops a digit only if it is a zero, and the rounds end where the mantissa and the
exponent are those of `normalize`.
-/

namespace LedgerWire.Decimal

def saturate (n : Int) : Int := max (-2 ^ 63) (min n (2 ^ 63 - 1))

theorem fits64_saturate (n : Int) : Fits64 (saturate n) := by
  simp only [Fits64, saturate]
  omega

theorem saturate_of_fits64 {n : Int} (h : Fits64 n) : saturate n = n := by
  simp only [Fits64, saturate] at *
  omega

theorem saturate_compare (n : Int) {limit : Int} (proper : -2 ^ 63 < limit ∧ limit < 2 ^ 63 - 1) :
    (saturate n ≤ limit ↔ n ≤ limit) ∧ (limit ≤ saturate n ↔ limit ≤ n) := by
  simp only [saturate]
  omega

structure Scaling where
  mantissa : Nat
  exponent : Int

namespace Scaling

structure InWords (s : Scaling) : Prop where
  mantissa : s.mantissa < 2 ^ 128
  exponent : Fits64 s.exponent

/-- One more zero behind a mantissa that is too short, or one less behind one that is too long. -/
inductive Round : Scaling → Scaling → Prop
  | lengthen {m : Nat} {e : Int} (short : m < 10 ^ 15) : Round ⟨m, e⟩ ⟨m * 10, saturate (e - 1)⟩
  | shorten {m : Nat} {e : Int} (long : 10 ^ 16 ≤ m) (zero : m % 10 = 0) :
      Round ⟨m, e⟩ ⟨m / 10, saturate (e + 1)⟩

abbrev Rounds : Scaling → Scaling → Prop := Relation.ReflTransGen Round

variable {s t : Scaling}

theorem Round.inWords (h : Round s t) (fits : s.InWords) : t.InWords := by
  cases h with
  | lengthen short => exact ⟨by simp only; omega, fits64_saturate _⟩
  | shorten long zero =>
    have bound := fits.mantissa
    exact ⟨by simp only at *; omega, fits64_saturate _⟩

theorem Round.exact (h : Round s t) :
    t.mantissa = s.mantissa * 10 ∨ s.mantissa = t.mantissa * 10 := by
  cases h with
  | lengthen short => exact .inl rfl
  | shorten long zero => exact .inr (by simp only; omega)

theorem Rounds.inWords (h : Rounds s t) (fits : s.InWords) : t.InWords := by
  induction h with
  | refl => exact fits
  | tail _ round ih => exact round.inWords ih

theorem Round.unfinished (h : Round s t) :
    s.mantissa < 10 ^ 15 ∨ 10 ^ 16 ≤ s.mantissa ∧ s.mantissa % 10 = 0 := by
  cases h with
  | lengthen short => exact .inl short
  | shorten long zero => exact .inr ⟨long, zero⟩

theorem rounds_of_room {c : Nat} {x : Int} (fits : Fits64 x) {shift : Nat}
    (room : c * 10 ^ shift < 10 ^ 16) : Rounds ⟨c, x⟩ ⟨c * 10 ^ shift, saturate (x - shift)⟩ := by
  induction shift with
  | zero =>
    rw [Nat.pow_zero, Nat.mul_one, Int.natCast_zero, Int.sub_zero, saturate_of_fits64 fits]
  | succ shift ih =>
    rw [Nat.pow_succ, ← Nat.mul_assoc] at room ⊢
    have last : saturate (x - (shift + 1 : Nat)) = saturate (saturate (x - shift) - 1) := by
      simp only [Fits64, saturate] at *
      omega
    rw [last]
    exact (ih (by omega)).tail (.lengthen (by omega))

end Scaling

open Scaling
variable {d : Decimal}

def scaling (d : Decimal) : Scaling := ⟨d.coefficient, d.exponent⟩

theorem inWords_scaling (few : d.digitCount ≤ 38) (fits : Fits64 d.exponent) :
    d.scaling.InWords := by
  refine ⟨?_, fits⟩
  have bound : d.coefficient < 10 ^ 38 := by
    by_cases zero : d.coefficient = 0
    · rw [zero]
      exact Nat.pow_pos (by decide)
    · rw [digitCount, if_neg zero] at few
      exact (Nat.length_toDigits_le_iff (by decide) (by decide)).mp few
  exact Nat.lt_trans bound (by decide)

theorem rounds_of_normalize {type : String} {m : Nat} {e : Int} (last : d.coefficient % 10 ≠ 0)
    (fits : Fits64 d.exponent) (h : d.normalize type = .ok (m, e)) :
    Rounds d.scaling ⟨m, saturate e⟩ ∧ ∀ next, ¬ Round ⟨m, saturate e⟩ next := by
  have nonzero : d.coefficient ≠ 0 := by omega
  obtain ⟨shift, rfl, rfl, lower, upper⟩ := (normalize_eq_ok nonzero).mp h
  refine ⟨rounds_of_room fits upper, fun next round => ?_⟩
  have unfinished := round.unfinished
  simp only at unfinished
  omega

theorem no_round_of_many (last : d.coefficient % 10 ≠ 0) (many : 16 < d.digitCount)
    (next : Scaling) : ¬ Round d.scaling next := by
  intro round
  have nonzero : d.coefficient ≠ 0 := by omega
  rw [digitCount, if_neg nonzero] at many
  have upper := Nat.length_toDigits_le_iff (b := 10) (n := d.coefficient) (k := 15) (by decide)
    (by decide)
  have unfinished := round.unfinished
  simp only [scaling] at unfinished
  omega

/-- How a number other than zero is scaled. Up to 38 digits fit a word; with up to sixteen of them
the rounds lead to the mantissa and to an exponent that compares like the exact one, with more
there is no round at all. -/
structure ScaledExactly (s : Spelling) : Prop where
  steps : s.significant ≤ 38 → ∀ state, Rounds s.decimal.scaling state → state.InWords ∧
    ∀ next, Round state next →
      next.mantissa = state.mantissa * 10 ∨ state.mantissa = next.mantissa * 10
  ends : ∀ negative m e, Normal s.value negative m e →
    Rounds s.decimal.scaling ⟨m, saturate e⟩ ∧ (∀ next, ¬ Round ⟨m, saturate e⟩ next) ∧
    ∀ limit, -2 ^ 63 < limit ∧ limit < 2 ^ 63 - 1 →
      (saturate e ≤ limit ↔ e ≤ limit) ∧ (limit ≤ saturate e ↔ limit ≤ e)
  refused : 16 < s.significant → ∀ next, ¬ Round s.decimal.scaling next

theorem scaledExactly {s : Spelling} (limits : s.InLimits) (nonzero : s.value ≠ 0) :
    ScaledExactly s := by
  obtain ⟨last, count⟩ := s.digitCount_decimal nonzero
  have fits : Fits64 s.decimal.exponent := by
    have filled : s.significand ≠ 0 := fun zero => nonzero (Spelling.value_eq_zero_iff.mpr zero)
    rw [Spelling.decimal, if_neg filled]
    exact limits.last filled
  refine ⟨fun few state rounds => ?_, fun negative m e normal => ?_, fun many => ?_⟩
  · exact ⟨rounds.inWords (inWords_scaling (by rwa [count]) fits), fun _ round => round.exact⟩
  · rw [← s.value_decimal] at normal
    obtain ⟨-, made⟩ := (normal_iff "" last).mp normal
    obtain ⟨rounds, done⟩ := rounds_of_normalize last fits made
    exact ⟨rounds, done, fun _ proper => saturate_compare e proper⟩
  · exact no_round_of_many last (by rwa [count])

end LedgerWire.Decimal
