import Mathlib.Data.List.TakeWhile
import LedgerWire.Decimal.Basic

/-!
The grammar of decimal texts as a type: a text is read exactly if it is the text of a spelling, and
what is read are the spelling's parts. A spelling writes digits with an optional point, at least
one digit in all, between an optional sign and an optional exponent.
-/

namespace LedgerWire.Decimal
open Text (isDigits natOfDigits)

def NoDigit (text : List Char) : Prop :=
  ∀ c rest, text = c :: rest → c.isDigit = false

theorem takeWhile_digits {digits rest : List Char} (h : digits.all Char.isDigit = true)
    (stops : NoDigit rest) :
    (digits ++ rest).takeWhile Char.isDigit = digits ∧
      (digits ++ rest).dropWhile Char.isDigit = rest := by
  have each := List.all_eq_true.mp h
  rw [List.takeWhile_append_of_pos each, List.dropWhile_append_of_pos each]
  cases rest with
  | nil => simp
  | cons c rest => simp [stops c rest rfl]

theorem all_isDigit {digits : List Char} (h : isDigits digits = true) :
    digits.all Char.isDigit = true :=
  (Bool.and_eq_true_iff.mp h).2

theorem isDigits_of_all {digits : List Char} (h : digits.all Char.isDigit = true)
    (nonempty : digits ≠ []) : isDigits digits = true := by
  simp [isDigits, h, nonempty]

theorem nonempty_of_isDigits {digits : List Char} (h : isDigits digits = true) : digits ≠ [] := by
  rintro rfl
  cases h

theorem all_takeWhile (text : List Char) : (text.takeWhile Char.isDigit).all Char.isDigit = true :=
  List.all_eq_true.mpr fun _ member => List.mem_takeWhile_imp member

inductive Sign
  | absent
  | plus
  | minus
deriving DecidableEq, Repr

namespace Sign

def text : Sign → List Char
  | absent => []
  | plus => ['+']
  | minus => ['-']

def negative (sign : Sign) : Bool := sign = minus

def apply (sign : Sign) (n : Nat) : Int := if sign.negative then -n else n

def ofNegative (negative : Bool) : Sign := if negative then minus else absent

theorem text_ofNegative (negative : Bool) :
    (ofNegative negative).text = if negative then ['-'] else [] := by
  cases negative <;> rfl

theorem negative_ofNegative (negative : Bool) : (ofNegative negative).negative = negative := by
  cases negative <;> rfl

end Sign

def NoSign (text : List Char) : Prop :=
  ∀ c rest, text = c :: rest → c ≠ '-' ∧ c ≠ '+'

theorem takeSign_text (sign : Sign) {rest : List Char} (h : NoSign rest) :
    takeSign (sign.text ++ rest) = (sign.negative, rest) := by
  cases sign with
  | absent =>
    cases rest with
    | nil => rfl
    | cons c rest =>
      obtain ⟨no_minus, no_plus⟩ := h c rest rfl
      rw [Sign.text, List.nil_append, takeSign]
      · rfl
      · rintro _ same
        exact no_minus (List.cons.inj same).1
      · rintro _ same
        exact no_plus (List.cons.inj same).1
  | plus => rfl
  | minus => rfl

theorem exists_sign (text : List Char) :
    ∃ sign : Sign, text = sign.text ++ (takeSign text).2 ∧ (takeSign text).1 = sign.negative := by
  unfold takeSign
  split
  · exact ⟨.minus, rfl, rfl⟩
  · exact ⟨.plus, rfl, rfl⟩
  · exact ⟨.absent, rfl, rfl⟩

theorem noSign_digits {digits : List Char} (h : isDigits digits = true) (rest : List Char) :
    NoSign (digits ++ rest) := by
  intro c back same
  cases digits with
  | nil => cases h
  | cons d digits =>
    have digit : d.isDigit = true := List.all_eq_true.mp (all_isDigit h) d List.mem_cons_self
    obtain ⟨rfl, -⟩ := List.cons.inj same
    constructor <;> rintro rfl <;> cases digit

structure WrittenExponent where
  mark : Char
  sign : Sign
  digits : List Char
  marked : mark = 'e' ∨ mark = 'E'
  valid : isDigits digits = true

namespace WrittenExponent

def text (e : WrittenExponent) : List Char := e.mark :: (e.sign.text ++ e.digits)

def value (e : WrittenExponent) : Int := e.sign.apply (natOfDigits e.digits)

end WrittenExponent

def exponentText (e : Option WrittenExponent) : List Char := e.elim [] WrittenExponent.text

def exponentValue (e : Option WrittenExponent) : Int := e.elim 0 WrittenExponent.value

theorem exponentOf?_text (e : Option WrittenExponent) :
    exponentOf? (exponentText e) = some (exponentValue e) := by
  cases e with
  | none => rfl
  | some e =>
    have sign := takeSign_text e.sign (noSign_digits e.valid [])
    rw [List.append_nil] at sign
    simp only [exponentText, exponentValue, Option.elim_some, WrittenExponent.text, exponentOf?,
      if_pos e.marked, sign, e.valid, if_true]
    rfl

theorem exponentOf?_eq_some_iff {tail : List Char} {x : Int} :
    exponentOf? tail = some x ↔ ∃ e, exponentText e = tail ∧ exponentValue e = x := by
  constructor
  · intro h
    cases tail with
    | nil => exact ⟨none, rfl, Option.some.inj h⟩
    | cons c rest =>
      simp only [exponentOf?] at h
      split at h
      · rename_i marked
        obtain ⟨sign, text, negative⟩ := exists_sign rest
        split at h
        · rename_i digits
          refine ⟨some ⟨c, sign, _, marked, digits⟩, congrArg (c :: ·) text.symm, ?_⟩
          rw [negative] at h
          exact Option.some.inj h
        · cases h
      · cases h
  · rintro ⟨e, rfl, rfl⟩
    exact exponentOf?_text e

theorem noDigit_exponentText (e : Option WrittenExponent) : NoDigit (exponentText e) := by
  intro c rest same
  cases e with
  | none => cases same
  | some e =>
    obtain ⟨rfl, -⟩ := List.cons.inj same
    rcases e.marked with marked | marked <;> rw [marked] <;> decide

theorem exponentText_ne_point (e : Option WrittenExponent) (rest : List Char) :
    exponentText e ≠ '.' :: rest := by
  intro same
  cases e with
  | none => cases same
  | some e =>
    have point := (List.cons.inj same).1
    rcases e.marked with marked | marked <;> rw [marked] at point <;> cases point

def pointText (fraction : Option (List Char)) : List Char := fraction.elim [] ('.' :: ·)

/-- A text of the grammar in its parts. -/
structure Spelling where
  sign : Sign
  whole : List Char
  fraction : Option (List Char)
  exponent : Option WrittenExponent
  valid : isDigits (whole ++ fraction.getD []) = true

namespace Spelling

def text (s : Spelling) : List Char :=
  s.sign.text ++ (s.whole ++ (pointText s.fraction ++ exponentText s.exponent))

def digits (s : Spelling) : List Char := s.whole ++ s.fraction.getD []

def places (s : Spelling) : Nat := (s.fraction.getD []).length

def literal (s : Spelling) : Int := exponentValue s.exponent

def parts (s : Spelling) : Parts := ⟨s.sign.negative, s.whole, s.fraction.getD [], s.literal⟩

theorem noSign (s : Spelling) :
    NoSign (s.whole ++ (pointText s.fraction ++ exponentText s.exponent)) := by
  intro c rest same
  have valid := s.valid
  cases whole : s.whole with
  | cons d back =>
    rw [whole] at same
    have digit : isDigits [d] = true := by
      rw [whole] at valid
      simpa [isDigits] using List.all_eq_true.mp (all_isDigit valid) d List.mem_cons_self
    exact noSign_digits digit _ c rest same
  | nil =>
    cases fraction : s.fraction with
    | none =>
      rw [whole, fraction] at valid
      cases valid
    | some behind =>
      rw [whole, fraction] at same
      obtain ⟨rfl, -⟩ := List.cons.inj same
      decide

end Spelling

theorem parts?_pieces (sign : Sign) (fraction : Option (List Char)) {whole tail : List Char}
    {x : Int} (valid : isDigits (whole ++ fraction.getD []) = true)
    (unsigned : NoSign (whole ++ (pointText fraction ++ tail))) (stops : NoDigit tail)
    (no_point : ∀ rest, tail ≠ '.' :: rest) (read : exponentOf? tail = some x) :
    parts? (sign.text ++ (whole ++ (pointText fraction ++ tail))) =
      some ⟨sign.negative, whole, fraction.getD [], x⟩ := by
  have digits := all_isDigit valid
  have filled := nonempty_of_isDigits valid
  rw [List.all_append, Bool.and_eq_true] at digits
  rw [parts?, takeSign_text sign unsigned]
  cases fraction with
  | none =>
    obtain ⟨taken, dropped⟩ := takeWhile_digits digits.1 stops
    have some_digit : whole.isEmpty = false := by simpa using filled
    simp [pointText, taken, dropped, some_digit, read]
  | some fraction =>
    have behind : NoDigit ('.' :: (fraction ++ tail)) := by
      rintro _ _ same
      cases same
      rfl
    rw [Option.getD_some] at digits filled
    obtain ⟨taken, dropped⟩ := takeWhile_digits digits.1 behind
    obtain ⟨fraction_taken, fraction_dropped⟩ := takeWhile_digits digits.2 stops
    have some_digit : (whole.isEmpty && fraction.isEmpty) = false := by
      simpa using filled
    simp only [pointText, Option.elim_some, Option.getD_some, List.cons_append, taken, dropped,
      fraction_taken, fraction_dropped, some_digit, read, Bool.false_eq_true, if_false,
      Option.map_some]

theorem Spelling.parts?_text (s : Spelling) : parts? s.text = some s.parts :=
  parts?_pieces s.sign s.fraction s.valid s.noSign (noDigit_exponentText s.exponent)
    (exponentText_ne_point s.exponent) (exponentOf?_text s.exponent)

theorem exists_fraction (text : List Char) :
    ∃ (fraction : Option (List Char)) (tail : List Char),
      (takeSign text).2.dropWhile Char.isDigit = pointText fraction ++ tail ∧
      (fraction.getD []).all Char.isDigit = true ∧
      parts? text =
        if ((takeSign text).2.takeWhile Char.isDigit).isEmpty && (fraction.getD []).isEmpty then
          none
        else (exponentOf? tail).map fun exponent =>
          ⟨(takeSign text).1, (takeSign text).2.takeWhile Char.isDigit, fraction.getD [],
            exponent⟩ := by
  simp only [parts?]
  split
  · rename_i rest behind
    refine ⟨some (rest.takeWhile Char.isDigit), rest.dropWhile Char.isDigit, ?_, all_takeWhile rest,
      rfl⟩
    rw [behind]
    exact congrArg ('.' :: ·) List.takeWhile_append_dropWhile.symm
  · exact ⟨none, _, rfl, rfl, rfl⟩

theorem parts?_eq_some_iff {text : List Char} {parts : Parts} :
    parts? text = some parts ↔ ∃ s : Spelling, s.text = text ∧ s.parts = parts := by
  constructor
  · intro h
    obtain ⟨sign, whole_text, negative⟩ := exists_sign text
    obtain ⟨fraction, tail, behind, digits, read⟩ := exists_fraction text
    rw [read] at h
    split at h
    · cases h
    · rename_i filled
      obtain ⟨x, exponent, made⟩ := Option.map_eq_some_iff.mp h
      obtain ⟨e, rfl, rfl⟩ := exponentOf?_eq_some_iff.mp exponent
      have valid : isDigits ((takeSign text).2.takeWhile Char.isDigit ++ fraction.getD []) = true :=
        isDigits_of_all (by rw [List.all_append, all_takeWhile, digits]; rfl)
          (by simpa using filled)
      refine ⟨⟨sign, _, fraction, e, valid⟩, ?_, ?_⟩
      · rw [Spelling.text, ← behind, List.takeWhile_append_dropWhile, ← whole_text]
      · rw [← made, negative]
        rfl
  · rintro ⟨s, rfl, rfl⟩
    exact s.parts?_text

end LedgerWire.Decimal
