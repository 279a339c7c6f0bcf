import LedgerWire.Proofs.LeafRendering
import LedgerWire.Proofs.Scaling

namespace LedgerWire.Amount
open Decimal (Spelling Normal shownExponent)

/-- The fields of the word of an issued amount other than zero. -/
structure Layout (word : Nat) (negative : Bool) (m : Nat) (e : Int) : Prop where
  width : word < 2 ^ 64
  issued : word.testBit 63 = true
  sign : word.testBit 62 = !negative
  exponent : (word / 2 ^ 54 % 2 ^ 8 : Nat) = e + 97
  mantissa : word % 2 ^ 54 = m

theorem Layout.unique {word other : Nat} {negative : Bool} {m : Nat} {e : Int}
    (h : Layout word negative m e) (same : Layout other negative m e) : word = other := by
  obtain ⟨width, issued, sign, exponent, mantissa⟩ := h
  obtain ⟨width', issued', sign', exponent', mantissa'⟩ := same
  rw [Nat.testBit_eq_decide_div_mod_eq] at issued issued' sign sign'
  have issued := of_decide_eq_true issued
  have issued' := of_decide_eq_true issued'
  have sign := decide_eq_decide.mp (sign.trans sign'.symm)
  omega

theorem toNat_raised {e : Int} (range : -96 ≤ e ∧ e ≤ 80) :
    (UInt8.ofNat (e + exponentBias).toNat).toNat = e + exponentBias := by
  rw [UInt8.toNat_ofNat']
  simp only [exponentBias]
  omega

theorem toNat_mantissa {m : Nat} (bound : m < 2 ^ 54) : (BitVec.ofNat 54 m).toNat = m := by
  rw [BitVec.toNat_ofNat]
  exact Nat.mod_eq_of_lt bound

theorem layout_word {negative : Bool} {m : Nat} {e : Int} {currency : Currency}
    {issuer : AccountId} (bound : m < 2 ^ 54) (range : -96 ≤ e ∧ e ≤ 80) :
    Layout (issued (!negative) (UInt8.ofNat (e + exponentBias).toNat) (BitVec.ofNat 54 m) currency
      issuer).word negative m e := by
  have raised : (UInt8.ofNat (e + exponentBias).toNat).toNat = (e + 97).toNat := by
    have raised := toNat_raised range
    simp only [exponentBias] at raised ⊢
    omega
  have whole : (issued (!negative) (UInt8.ofNat (e + exponentBias).toNat) (BitVec.ofNat 54 m)
      currency issuer).word =
        2 ^ 63 + (if negative then 0 else 2 ^ 62) + (e + 97).toNat * 2 ^ 54 + m := by
    rw [word, raised, toNat_mantissa bound]
    cases negative <;> rfl
  rw [whole]
  refine ⟨?_, ?_, ?_, ?_, ?_⟩
  · split <;> omega
  · rw [Nat.testBit_eq_decide_div_mod_eq, decide_eq_true_eq]
    split <;> omega
  · rw [Nat.testBit_eq_decide_div_mod_eq]
    cases negative <;> simp <;> omega
  · split <;> omega
  · split <;> omega

section Parts
variable {text : String} {d : Decimal}

theorem issuedParts_of_zero (read : Decimal.ofText? text = some d) (zero : d.coefficient = 0) :
    issuedParts text = .ok (false, 0, 0) := by
  rw [issuedParts, read]
  simp only [Decimal.isZero, zero]
  rfl

theorem issuedParts_of_normalize (read : Decimal.ofText? text = some d)
    (nonzero : d.isZero = false) {m : Nat} {e : Int}
    (normal : d.normalize typeName = .ok (m, e)) :
    issuedParts text =
      if 80 < e then .error (.overflow (.issued text))
      else if e < -96 then .error (.imprecise (.issued text))
      else .ok (!d.negative, UInt8.ofNat (e + exponentBias).toNat, BitVec.ofNat 54 m) := by
  rw [issuedParts, read]
  simp only [nonzero, normal, bind, Except.bind, maxExponent, minExponent]
  rfl

theorem issuedParts_of_many (read : Decimal.ofText? text = some d) (many : 16 < d.digitCount) :
    issuedParts text = .error (.imprecise (.digits typeName d.digitCount)) := by
  rw [issuedParts, read]
  simp only [Decimal.isZero_of_many many, Decimal.normalize_of_many typeName many, bind,
    Except.bind]
  rfl

theorem issuedParts_of_none (read : Decimal.ofText? text = none) :
    issuedParts text = .error (.malformed typeName (.notDecimal text)) := by
  rw [issuedParts, read]

end Parts

structure Describes (json : Json) (text : String) (currency : Currency) (issuer : AccountId) :
    Prop where
  object : ∃ members, json = .object members
  value : json.get? "value" = some (.string text)
  currency : ∃ code, json.get? "currency" = some code ∧ Currency.ofJson code = .ok currency
  issuer : ∃ address, json.get? "issuer" = some address ∧ AccountId.ofJson address = .ok issuer

theorem Describes.unique {json : Json} {text other : String} {currency code : Currency}
    {issuer account : AccountId} (h : Describes json text currency issuer)
    (same : Describes json other code account) :
    text = other ∧ currency = code ∧ issuer = account := by
  obtain ⟨-, value, ⟨_, code_member, code_read⟩, ⟨_, address_member, address_read⟩⟩ := h
  obtain ⟨-, value', ⟨_, code_member', code_read'⟩, ⟨_, address_member', address_read'⟩⟩ := same
  cases value.symm.trans value'
  cases code_member.symm.trans code_member'
  cases address_member.symm.trans address_member'
  exact ⟨rfl, Except.ok.inj (code_read.symm.trans code_read'),
    Except.ok.inj (address_read.symm.trans address_read')⟩

theorem ofJson_of_describes {json : Json} {text : String} {currency : Currency}
    {issuer : AccountId} (h : Describes json text currency issuer) :
    ofJson json = (issuedParts text).map fun (positive, biased, mantissa) =>
      .issued positive biased mantissa currency issuer := by
  obtain ⟨members, rfl⟩ := h.object
  obtain ⟨code, code_member, code_read⟩ := h.currency
  obtain ⟨address, address_member, address_read⟩ := h.issuer
  simp only [ofJson, h.value, code_member, address_member, ofIssued, code_read, address_read, bind,
    Except.bind]
  cases issuedParts text <;> rfl

/-- The numbers that an issued amount holds. -/
def Representable (x : ℚ) : Prop :=
  x = 0 ∨ ∃ negative m e, Normal x negative m e ∧ -96 ≤ e ∧ e ≤ 80

/-- What becomes of a spelled value beside a currency and an issuer. -/
structure IssuedAs (text : String) (s : Spelling) (currency : Currency) (issuer : AccountId)
    (result : Except Error Amount) : Prop where
  zero : s.value = 0 → ∃ amount, result = .ok amount ∧
    amount.toBytes = beBytes 8 0x8000000000000000 ++ currency.bytes ++ issuer.bytes
  fits : ∀ negative m e, Normal s.value negative m e → -96 ≤ e → e ≤ 80 →
    ∃ amount word, result = .ok amount ∧ Layout word negative m e ∧
      amount.toBytes = beBytes 8 word ++ currency.bytes ++ issuer.bytes
  large : ∀ negative m e, Normal s.value negative m e → 80 < e →
    result = .error (.overflow (.issued text))
  small : ∀ negative m e, Normal s.value negative m e → e < -96 →
    result = .error (.imprecise (.issued text))
  long : 16 < s.significant → result = .error (.imprecise (.digits typeName s.significant))

section Issued
variable {json : Json} {text : String} {currency : Currency} {issuer : AccountId} {s : Spelling}

theorem issuedAs (h : Describes json text currency issuer) (spelled : s.text = text.toList)
    (limits : s.InLimits) : IssuedAs text s currency issuer (ofJson json) := by
  have read := (Decimal.ofText?_eq_some_iff spelled).mpr ⟨limits, rfl⟩
  rw [ofJson_of_describes h]
  refine ⟨fun zero => ?_, fun negative m e normal lower upper => ?_,
    fun negative m e normal upper => ?_, fun negative m e normal lower => ?_, fun many => ?_⟩
  · rw [issuedParts_of_zero read (Spelling.coefficient_of_zero zero)]
    exact ⟨_, rfl, rfl⟩
  · obtain ⟨nonzero, rfl, made⟩ := Spelling.normalize_of_normal typeName normal
    rw [issuedParts_of_normalize read nonzero made, if_neg (by omega), if_neg (by omega)]
    have bound : m < 2 ^ 54 := Nat.lt_trans normal.upper (by decide)
    exact ⟨_, _, rfl, layout_word bound ⟨lower, upper⟩, rfl⟩
  · obtain ⟨nonzero, -, made⟩ := Spelling.normalize_of_normal typeName normal
    rw [issuedParts_of_normalize read nonzero made, if_pos upper]
    rfl
  · obtain ⟨nonzero, -, made⟩ := Spelling.normalize_of_normal typeName normal
    rw [issuedParts_of_normalize read nonzero made, if_neg (by omega), if_pos lower]
    rfl
  · have nonzero : s.value ≠ 0 := Spelling.value_ne_zero_of_significant (by omega)
    have count := (s.digitCount_decimal nonzero).2
    rw [issuedParts_of_many read (by omega), count]
    rfl

theorem ofJson_of_unspelled (h : Describes json text currency issuer)
    (unspelled : ∀ s : Spelling, s.text = text.toList → ¬ s.InLimits) :
    ofJson json = .error (.malformed typeName (.notDecimal text)) := by
  rw [ofJson_of_describes h, issuedParts_of_none (Decimal.ofText?_eq_none unspelled)]
  rfl

theorem representable_of_ok (issued : IssuedAs text s currency issuer (ofJson json))
    {amount : Amount} (made : ofJson json = .ok amount) : Representable s.value := by
  by_cases zero : s.value = 0
  · exact .inl zero
  have few : s.significant ≤ 16 := by
    by_contra many
    rw [issued.long (Nat.not_le.mp many)] at made
    cases made
  obtain ⟨negative, m, e, normal⟩ := (Decimal.exists_normal_iff zero).mpr few
  refine .inr ⟨negative, m, e, normal, ?_, ?_⟩
  · by_contra small
    rw [issued.small negative m e normal (Int.not_le.mp small)] at made
    cases made
  · by_contra large
    rw [issued.large negative m e normal (Int.not_le.mp large)] at made
    cases made

theorem ok_of_representable (issued : IssuedAs text s currency issuer (ofJson json))
    (h : Representable s.value) : ∃ amount, ofJson json = .ok amount := by
  rcases h with zero | ⟨negative, m, e, normal, lower, upper⟩
  · obtain ⟨amount, made, -⟩ := issued.zero zero
    exact ⟨amount, made⟩
  · obtain ⟨amount, word, made, -⟩ := issued.fits negative m e normal lower upper
    exact ⟨amount, made⟩

/-- An amount is issued exactly if its text spells, within the limits of its exponents, a number
that the format holds. Every spelled value becomes its word or is refused for the first reason that
applies, and is scaled without leaving the words of the machine; any other text is no decimal. -/
theorem issued_exactly (h : Describes json text currency issuer) :
    ((∃ amount, ofJson json = .ok amount) ↔
      ∃ s : Spelling, s.text = text.toList ∧ s.InLimits ∧ Representable s.value) ∧
    (∀ s : Spelling, s.text = text.toList → s.InLimits →
      IssuedAs text s currency issuer (ofJson json) ∧
      (s.value ≠ 0 → ((∃ negative m e, Normal s.value negative m e) ↔ s.significant ≤ 16) ∧
        Decimal.ScaledExactly s)) ∧
    ((∀ s : Spelling, s.text = text.toList → ¬ s.InLimits) →
      ofJson json = .error (.malformed typeName (.notDecimal text))) := by
  refine ⟨⟨fun ⟨amount, made⟩ => ?_, fun ⟨s, spelled, limits, representable⟩ => ?_⟩,
    fun s spelled limits => ⟨issuedAs h spelled limits, fun nonzero => ?_⟩,
    ofJson_of_unspelled h⟩
  · by_contra none
    have refused := ofJson_of_unspelled h fun s spelled limits =>
      none ⟨s, spelled, limits, representable_of_ok (issuedAs h spelled limits) made⟩
    rw [made] at refused
    cases refused
  · exact ok_of_representable (issuedAs h spelled limits) representable
  · exact ⟨Decimal.exists_normal_iff nonzero, Decimal.scaledExactly limits nonzero⟩

end Issued

/-- The largest amount, with a sign, without a whole part and with a zero at the end. -/
def largestText : String := "+.99999999999999990e96"

def largestSpelling : Spelling where
  sign := .plus
  whole := []
  fraction := some "99999999999999990".toList
  exponent := some (shownExponent .absent 96)
  valid := by decide

theorem issued_exactly_largest :
    Describes (.object [("value", .string largestText), ("currency", .string "USD"),
      ("issuer", .string "")]) largestText (Currency.ofCode 'U' 'S' 'D') .zero ∧
    largestSpelling.text = largestText.toList ∧ largestSpelling.InLimits ∧
    Normal largestSpelling.value false 9999999999999999 80 ∧
    ∃ amount word,
      ofJson (.object [("value", .string largestText), ("currency", .string "USD"),
        ("issuer", .string "")]) = .ok amount ∧
      Layout word false 9999999999999999 80 ∧
      amount.toBytes = beBytes 8 word ++ (Currency.ofCode 'U' 'S' 'D').bytes ++ beBytes 20 0 := by
  have describes : Describes (.object [("value", .string largestText), ("currency", .string "USD"),
      ("issuer", .string "")]) largestText (Currency.ofCode 'U' 'S' 'D') .zero :=
    ⟨⟨_, rfl⟩, rfl, ⟨_, rfl, rfl⟩, ⟨_, rfl, rfl⟩⟩
  have spelled : largestSpelling.text = largestText.toList := by decide
  have limits : largestSpelling.InLimits := ⟨by decide, by decide, fun _ => by decide⟩
  have normal : Normal largestSpelling.value false 9999999999999999 80 := by
    refine ⟨by decide, by decide, ?_⟩
    have sign : largestSpelling.sign.negative = false := by decide
    have significand : largestSpelling.significand = 99999999999999990 := by decide
    have literal : largestSpelling.literal = 96 := by decide
    have places : largestSpelling.places = 17 := by decide
    rw [Spelling.value, sign, significand, literal, places]
    norm_num [Decimal.unit]
  obtain ⟨issued, -⟩ := (issued_exactly describes).2.1 largestSpelling spelled limits
  exact ⟨describes, spelled, limits, normal,
    issued.fits false 9999999999999999 80 normal (by decide) (by decide)⟩

end LedgerWire.Amount
