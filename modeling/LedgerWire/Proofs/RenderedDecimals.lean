import Mathlib.Data.List.Basic
import LedgerWire.Proofs.Decimal

namespace LedgerWire.Decimal
open Text (isDigits natOfDigits)

def Unpadded (digits : List Char) : Prop := digits.head? = some '0' → digits = ['0']

theorem unpadded_toDigits (n : Nat) : Unpadded (Nat.toDigits 10 n) := by
  induction n using Nat.strongRecOn with
  | _ n ih =>
    intro padded
    by_cases one : n < 10
    · rw [Nat.toDigits_of_lt_base one] at padded ⊢
      rw [List.head?_cons, Option.some.injEq] at padded
      rw [padded]
    · rw [Nat.toDigits_of_base_le (by decide) (Nat.le_of_not_lt one),
        List.head?_append_of_ne_nil _ Nat.toDigits_ne_nil] at padded
      have shorter := ih (n / 10) (by omega) padded
      have front := Text.natOfDigits_toDigits (n / 10)
      rw [shorter] at front
      change 0 = n / 10 at front
      omega

theorem unpadded_of_ne {digits : List Char} (h : digits.head? ≠ some '0') : Unpadded digits :=
  fun padded => absurd padded h

structure Significant (kept : List Char) (m k : Nat) : Prop where
  digits : isDigits kept = true
  length : kept.length + k = 16
  mantissa : m = natOfDigits kept * 10 ^ k
  first : kept.head? ≠ some '0'
  last : kept.getLast? ≠ some '0'

theorem significant_stripZeros {m : Nat} (bounds : 10 ^ 15 ≤ m ∧ m < 10 ^ 16) :
    ∃ k, Significant (stripZeros (Nat.toDigits 10 m)).1 m k := by
  have whole := stripZeros_append (Nat.toDigits 10 m)
  have length : (Nat.toDigits 10 m).length = 16 :=
    (length_toDigits_eq_iff (by omega) (by decide)).mpr bounds
  have digits := Text.isDigits_toDigits m
  have value := Text.natOfDigits_toDigits m
  have unpadded := unpadded_toDigits m
  have last := (natOfDigits_stripZeros (all_isDigit digits) (by omega)).1
  generalize (stripZeros (Nat.toDigits 10 m)).1 = kept at *
  generalize (stripZeros (Nat.toDigits 10 m)).2 = k at *
  generalize Nat.toDigits 10 m = all at *
  subst whole
  rw [natOfDigits_append_zeros] at value
  rw [List.length_append, List.length_replicate] at length
  have filled : kept ≠ [] := by
    rintro rfl
    exact last rfl
  rw [isDigits, List.all_append, Bool.and_eq_true, Bool.and_eq_true] at digits
  refine ⟨k, isDigits_of_all digits.2.1 filled, length, value.symm, fun padded => ?_,
    fun ends => last ?_⟩
  · have one := congrArg List.length
      (unpadded ((List.head?_append_of_ne_nil kept filled).trans padded))
    rw [List.length_append, List.length_replicate, List.length_singleton] at one
    omega
  · obtain ⟨front, rfl⟩ := List.getLast?_eq_some_iff.mp ends
    rw [natOfDigits_append]
    exact Nat.mul_mod_left _ 10

def shownFraction (digits : List Char) : Option (List Char) :=
  if digits.isEmpty then none else some digits

theorem getD_shownFraction (digits : List Char) : (shownFraction digits).getD [] = digits := by
  cases digits <;> rfl

theorem pointText_shownFraction (digits : List Char) :
    pointText (shownFraction digits) = if digits.isEmpty then [] else '.' :: digits := by
  cases digits <;> rfl

def leadSign (lead : Int) : Sign := if 0 < lead then .plus else .minus

theorem apply_leadSign (lead : Int) : (leadSign lead).apply lead.natAbs = lead := by
  by_cases positive : 0 < lead
  · rw [leadSign, if_pos positive, Sign.apply, if_neg (by decide)]
    omega
  · rw [leadSign, if_neg positive, Sign.apply, if_pos (by decide)]
    omega

theorem text_leadSign (lead : Int) :
    (leadSign lead).text = if 0 < lead then ['+'] else ['-'] := by
  rw [leadSign]
  split <;> rfl

namespace Spelling

/-- No zero can be left away: neither in front of the whole part or of the exponent nor behind the
fraction. -/
structure Tidy (s : Spelling) : Prop where
  whole : s.whole ≠ [] ∧ Unpadded s.whole
  fraction : ∀ digits, s.fraction = some digits → digits ≠ [] ∧ digits.getLast? ≠ some '0'
  exponent : ∀ e, s.exponent = some e → Unpadded e.digits

/-- The layout of a number whose leading digit has the exponent `lead`: in full, or with one digit
other than zero in front of the point and its exponent, sign included, at the end. -/
structure LaidOut (s : Spelling) (lead : Int) : Prop where
  positional : s.exponent = none ↔ -6 ≤ lead ∧ lead ≤ 20
  scientific : ∀ e, s.exponent = some e → (∃ first, s.whole = [first] ∧ first ≠ '0') ∧
    e.mark = 'e' ∧ e.sign = leadSign lead ∧ e.value = lead

end Spelling

/-- The text spells sign, mantissa and exponent without superfluous zeros. -/
def Spells (text : List Char) (negative : Bool) (m : Nat) (e : Int)
    (shape : Spelling → Prop) : Prop :=
  ∃ s : Spelling, s.text = text ∧ s.StandsFor negative m e ∧ s.Tidy ∧ shape s

section Rendered
variable {kept : List Char} {m k : Nat} {e : Int}

theorem spells_behind (negative : Bool) (h : Significant kept m k) {n : Nat} (few : n ≤ 30)
    (exponent : e = -n - 16) :
    Spells ((if negative then ['-'] else []) ++ (['0', '.'] ++ List.replicate n '0' ++ kept))
      negative m e fun s => s.exponent = none := by
  have length := h.length
  have filled := nonempty_of_isDigits h.digits
  have valid : isDigits (['0'] ++ (List.replicate n '0' ++ kept)) = true :=
    isDigits_of_all (by simp [all_isDigit h.digits]) (by simp)
  let s : Spelling :=
    ⟨.ofNegative negative, ['0'], some (List.replicate n '0' ++ kept), none, valid⟩
  have value : s.significand = natOfDigits kept * 10 ^ 0 := by
    rw [Nat.pow_zero, Nat.mul_one]
    exact natOfDigits_zeros_append (n + 1) kept
  have literal : s.literal = 0 := rfl
  have places : s.places = n + kept.length := by simp [s, Spelling.places]
  refine ⟨s, ?_, ⟨rfl, ⟨_, 0, k, by decide, value, h.mantissa, by omega⟩, by omega⟩,
    ⟨⟨nofun, fun _ => rfl⟩, ?_, nofun⟩, rfl⟩
  · simp [s, Spelling.text, pointText, exponentText, Sign.text_ofNegative]
  · rintro _ ⟨⟩
    refine ⟨by simp [filled], ?_⟩
    rw [List.getLast?_append_of_ne_nil _ filled]
    exact h.last

theorem spells_whole (negative : Bool) (h : Significant kept m k) {n : Nat} (few : n ≤ 30)
    (exponent : e = kept.length + n - 16) :
    Spells ((if negative then ['-'] else []) ++ (kept ++ List.replicate n '0')) negative m e
      fun s => s.exponent = none := by
  have length := h.length
  have filled := nonempty_of_isDigits h.digits
  have valid : isDigits (kept ++ List.replicate n '0' ++ []) = true :=
    isDigits_of_all (by simp [all_isDigit h.digits]) (by simp [filled])
  let s : Spelling := ⟨.ofNegative negative, kept ++ List.replicate n '0', none, none, valid⟩
  have value : s.significand = natOfDigits kept * 10 ^ n := by
    change natOfDigits (kept ++ List.replicate n '0' ++ []) = _
    rw [List.append_nil, natOfDigits_append_zeros]
  have literal : s.literal = 0 := rfl
  have places : s.places = 0 := rfl
  refine ⟨s, ?_, ⟨rfl, ⟨_, n, k, by omega, value, h.mantissa, by omega⟩, by omega⟩,
    ⟨⟨by simp [s, filled], ?_⟩, nofun, nofun⟩, rfl⟩
  · simp [s, Spelling.text, pointText, exponentText, Sign.text_ofNegative]
  · apply unpadded_of_ne
    rw [List.head?_append_of_ne_nil kept filled]
    exact h.first

theorem spells_split (negative : Bool) (h : Significant kept m k) {p : Nat}
    (among : 0 < p ∧ p ≤ kept.length) (shown : Option WrittenExponent)
    (range : -100000 ≤ exponentValue shown ∧ exponentValue shown ≤ 100000)
    (unpadded : ∀ e, shown = some e → Unpadded e.digits)
    (exponent : e = exponentValue shown + p - 16) :
    Spells ((if negative then ['-'] else []) ++ (kept.take p ++
      ((if (kept.drop p).isEmpty then [] else '.' :: kept.drop p) ++ exponentText shown)))
      negative m e fun s => s.exponent = shown ∧ s.whole = kept.take p := by
  have length := h.length
  have parts : kept.take p ++ (shownFraction (kept.drop p)).getD [] = kept := by
    rw [getD_shownFraction, List.take_append_drop]
  have valid : isDigits (kept.take p ++ (shownFraction (kept.drop p)).getD []) = true := by
    rw [parts, h.digits]
  let s : Spelling :=
    ⟨.ofNegative negative, kept.take p, shownFraction (kept.drop p), shown, valid⟩
  have value : s.significand = natOfDigits kept * 10 ^ 0 := by
    change natOfDigits (kept.take p ++ (shownFraction (kept.drop p)).getD []) = _
    rw [parts, Nat.pow_zero, Nat.mul_one]
  have literal : s.literal = exponentValue shown := rfl
  have places : s.places = kept.length - p := by
    change ((shownFraction (kept.drop p)).getD []).length = _
    rw [getD_shownFraction, List.length_drop]
  refine ⟨s, ?_, ⟨rfl, ⟨_, 0, k, by decide, value, h.mantissa, by omega⟩, by omega⟩,
    ⟨⟨?_, ?_⟩, fun digits fraction => ?_, unpadded⟩, rfl, rfl⟩
  · rw [Spelling.text, pointText_shownFraction, Sign.text_ofNegative]
  · rw [← List.length_pos_iff, List.length_take]
    omega
  · apply unpadded_of_ne
    rw [List.head?_take, if_neg (by omega)]
    exact h.first
  · simp only [s, shownFraction] at fraction
    split at fraction
    · cases fraction
    · rename_i some_behind
      cases fraction
      have filled : kept.drop p ≠ [] := by simpa using some_behind
      have last := h.last
      rw [← List.take_append_drop p kept, List.getLast?_append_of_ne_nil _ filled] at last
      exact ⟨filled, last⟩

theorem spells_positional (negative : Bool) (h : Significant kept m k)
    (range : -22 ≤ e ∧ e ≤ 5) :
    Spells ((if negative then ['-'] else []) ++ positional kept (e + 16)) negative m e
      fun s => s.exponent = none := by
  have length := h.length
  rw [positional]
  by_cases behind : e + 16 ≤ 0
  · rw [if_pos behind]
    exact spells_behind negative h (by omega) (by omega)
  by_cases whole : (kept.length : Int) ≤ e + 16
  · rw [if_neg behind, if_pos whole]
    exact spells_whole negative h (by omega) (by omega)
  · rw [if_neg behind, if_neg whole]
    have some_behind : (kept.drop (e + 16).toNat).isEmpty = false := by
      rw [List.isEmpty_eq_false_iff, ← List.length_pos_iff, List.length_drop]
      omega
    obtain ⟨s, text, stands, tidy, exponent, -⟩ := spells_split (e := e) negative h
      (p := (e + 16).toNat) (by omega) none (by decide) nofun
      (by simp only [exponentValue, Option.elim_none]; omega)
    rw [some_behind] at text
    exact ⟨s, by simpa [exponentText] using text, stands, tidy, exponent⟩

theorem spells_scientific (negative : Bool) (h : Significant kept m k) (lead : Int)
    (range : -1000 ≤ lead ∧ lead ≤ 1000) :
    Spells ((if negative then ['-'] else []) ++ scientific kept lead) negative m (lead - 15)
      fun s => s.exponent = some (shownExponent (leadSign lead) lead.natAbs) ∧
        ∃ first, s.whole = [first] ∧ first ≠ '0' := by
  have value : exponentValue (some (shownExponent (leadSign lead) lead.natAbs)) = lead := by
    rw [value_shownExponent, apply_leadSign]
  have first := h.first
  have nonempty : 0 < kept.length := List.length_pos_iff.mpr (nonempty_of_isDigits h.digits)
  obtain ⟨s, text, stands, tidy, exponent, whole⟩ := spells_split (e := lead - 15) negative h
    (p := 1) (by omega) (some (shownExponent (leadSign lead) lead.natAbs)) (by omega)
    (by rintro _ ⟨⟩; exact unpadded_toDigits _) (by omega)
  rw [text_shownExponent, text_leadSign] at text
  refine ⟨s, ?_, stands, tidy, exponent, ?_⟩
  · rw [text, scientific, toList_toString]
    simp
  · cases kept with
    | nil => cases nonempty
    | cons c rest => exact ⟨c, whole, by simpa using first⟩

/-- A rendered mantissa of sixteen digits is spelled without superfluous zeros, in full or with the
exponent of its leading digit. -/
theorem spells_render (negative : Bool) (bounds : 10 ^ 15 ≤ m ∧ m < 10 ^ 16)
    (range : -900 ≤ e ∧ e ≤ 900) :
    Spells (render negative m e).toList negative m e fun s => s.LaidOut (e + 15) := by
  obtain ⟨k, significant⟩ := significant_stripZeros bounds
  have length : (Nat.toDigits 10 m).length = 16 :=
    (length_toDigits_eq_iff (by omega) (by decide)).mpr bounds
  have lead : e + ((16 : Nat) - 1 : Int) = e + 15 := by omega
  rw [render, if_neg (by omega), String.toList_ofList]
  simp only [length, lead]
  by_cases short : -6 ≤ e + 15 ∧ e + 15 ≤ 20
  · rw [if_pos short, show e + 15 + 1 = e + 16 by omega]
    obtain ⟨s, text, stands, tidy, exponent⟩ :=
      spells_positional (e := e) negative significant (by omega)
    refine ⟨s, text, stands, tidy, iff_of_true exponent short, ?_⟩
    rw [exponent]
    nofun
  · rw [if_neg short]
    obtain ⟨s, text, stands, tidy, exponent, first⟩ :=
      spells_scientific negative significant (e + 15) (by omega)
    rw [show e + 15 - 15 = e by omega] at stands
    refine ⟨s, text, stands, tidy, iff_of_false (by rw [exponent]; nofun) short, ?_⟩
    rw [exponent]
    rintro _ ⟨⟩
    refine ⟨first, rfl, rfl, ?_⟩
    exact (value_shownExponent _ _).trans (apply_leadSign _)

theorem writes_render (negative : Bool) (bounds : 10 ^ 15 ≤ m ∧ m < 10 ^ 16)
    (range : -900 ≤ e ∧ e ≤ 900) : Writes (render negative m e) negative m e := by
  obtain ⟨s, text, stands, -⟩ := spells_render negative bounds range
  have written := stands.writes bounds
  rwa [text, String.ofList_toList] at written

/-- A rendered decimal is shorter than a tagged address. -/
theorem length_render_lt (negative : Bool) (bound : m < 10 ^ 16) (range : -900 ≤ e ∧ e ≤ 900) :
    (render negative m e).length < 47 := by
  by_cases zero : m = 0
  · rw [render, if_pos zero]
    decide
  have length : (Nat.toDigits 10 m).length ≤ 16 := length_toDigits_le (by decide) bound
  have whole := stripZeros_append (Nat.toDigits 10 m)
  have kept := congrArg List.length whole
  rw [List.length_append, List.length_replicate] at kept
  have some_digit : 0 < (Nat.toDigits 10 m).length := Nat.length_toDigits_pos
  rw [render, if_neg zero, ← String.length_toList, String.toList_ofList, List.length_append]
  have one_sign : (if negative then ['-'] else []).length ≤ 1 := by cases negative <;> decide
  generalize (if negative then ['-'] else []) = sign at *
  generalize (Nat.toDigits 10 m).length = count at *
  generalize (stripZeros (Nat.toDigits 10 m)).1 = digits at *
  -- Without an exponent there are few zeros to write out, and an exponent has three digits at most.
  by_cases short : -6 ≤ e + ((count : Int) - 1) ∧ e + ((count : Int) - 1) ≤ 20
  · rw [if_pos short, positional]
    split
    · simp
      omega
    split
    · simp
      omega
    · simp
      omega
  · have exponent : (Nat.toDigits 10 (e + ((count : Int) - 1)).natAbs).length ≤ 3 :=
      length_toDigits_le (by decide) (by omega)
    have mark : (if 0 < e + ((count : Int) - 1) then ['+'] else ['-']).length = 1 := by
      split <;> rfl
    have fraction : (if (digits.drop 1).isEmpty then [] else '.' :: digits.drop 1).length ≤ 16 := by
      split
      · simp
      · simp
        omega
    have first : (digits.take 1).length ≤ 1 := List.length_take_le _ _
    rw [if_neg short, scientific, toList_toString]
    simp only [List.length_append, mark, List.length_singleton]
    omega

end Rendered

end LedgerWire.Decimal
