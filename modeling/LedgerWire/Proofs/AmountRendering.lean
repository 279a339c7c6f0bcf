import LedgerWire.Proofs.Consumption
import LedgerWire.Proofs.Drops
import LedgerWire.Proofs.IssuedAmounts

/-!
Amounts and their renderings. An issued amount with a mantissa of sixteen digits and an exponent in
range survives rendering. A reader also takes amounts that are never written: zeros with other bits
set, and signs, drops and exponents out of range. What these are rendered as is built as the one
zero of their kind, or refused.
-/

namespace LedgerWire

namespace Decimal

/-- The text spells the number without superfluous signs and zeros, in full where the exponent of
its leading digit is small. -/
def Shown (text : String) (x : ℚ) : Prop :=
  ∃ s : Spelling, s.text = text.toList ∧ s.value = x ∧ s.sign ≠ .plus ∧ s.Tidy ∧
    s.LaidOut (Int.log 10 |x|)

theorem shown_render (negative : Bool) {m : Nat} {e : Int} (bounds : 10 ^ 15 ≤ m ∧ m < 10 ^ 16)
    (range : -900 ≤ e ∧ e ≤ 900) : Shown (render negative m e) (unit negative * m * 10 ^ e) := by
  obtain ⟨s, text, stands, tidy, laid⟩ := spells_render negative bounds range
  have normal : Normal (unit negative * m * 10 ^ e) negative m e := ⟨bounds.1, bounds.2, rfl⟩
  refine ⟨s, text, stands.value, ?_, tidy, ?_⟩
  · rw [stands.sign]
    cases negative <;> decide
  · rwa [normal.log_abs]

theorem render_inj {negative other : Bool} {m n : Nat} {e x : Int}
    (m_bounds : 10 ^ 15 ≤ m ∧ m < 10 ^ 16) (n_bounds : 10 ^ 15 ≤ n ∧ n < 10 ^ 16)
    (e_range : -900 ≤ e ∧ e ≤ 900) (x_range : -900 ≤ x ∧ x ≤ 900)
    (same : render negative m e = render other n x) : negative = other ∧ m = n ∧ e = x := by
  obtain ⟨d, read, rfl, -, normal⟩ := writes_render negative m_bounds e_range
  obtain ⟨again, reread, rfl, -, renormal⟩ := writes_render other n_bounds x_range
  obtain rfl : d = again := Option.some.inj (read.symm.trans (same ▸ reread))
  cases (normal "").symm.trans (renormal "")
  exact ⟨rfl, rfl, rfl⟩

theorem render_ne_zero (negative : Bool) {m : Nat} {e : Int} (bounds : 10 ^ 15 ≤ m ∧ m < 10 ^ 16)
    (range : -900 ≤ e ∧ e ≤ 900) : render negative m e ≠ "0" := by
  intro zero
  obtain ⟨d, read, -, nonzero, -⟩ := writes_render negative bounds range
  rw [zero] at read
  have none : ofText? "0" = some ⟨false, 0, 0⟩ := by decide
  rw [none] at read
  cases read
  exact nonzero rfl

end Decimal

namespace Amount
open Decimal (Spelling unit Shown)

/-- The amount of a word survives rendering, as this text. -/
structure Survives (amount : Amount) (word : Nat) (currency : Currency) (issuer : AccountId)
    (text : String) : Prop where
  bytes : amount.toBytes = beBytes 8 word ++ currency.bytes ++ issuer.bytes
  read : ∀ announced, Announces announced 48 → Reads (read announced) amount.toBytes amount
  rendering : amount.toJson = .object
    [("currency", currency.toJson), ("issuer", issuer.toJson), ("value", .string text)]
  built : ofJson amount.toJson = .ok amount

theorem survives_of_settled {positive : Bool} {biased : UInt8} {mantissa : BitVec 54}
    {currency : Currency} {issuer : AccountId}
    (settled : (issued positive biased mantissa currency issuer).Settled) :
    Survives (issued positive biased mantissa currency issuer)
      (issued positive biased mantissa currency issuer).word currency issuer
      (Decimal.render (!positive) mantissa.toNat (biased.toNat - (exponentBias : Int))) where
  bytes := rfl
  read announced fits := read_toBytes (canonical_of_settled settled) (by simpa [toBytes] using fits)
  rendering := rfl
  built := ofJson_toJson settled

/-- Every normal word, whatever its sign and its exponent in range, and the word of zero are
rendered, built again and read back as they are. -/
theorem issued_survives (currency : Currency) (issuer : AccountId) :
    (∀ negative m e word, 10 ^ 15 ≤ m → m < 10 ^ 16 → -96 ≤ e → e ≤ 80 → Layout word negative m e →
      ∃ amount text, Survives amount word currency issuer text ∧
        Shown text (unit negative * m * 10 ^ e)) ∧
    ∃ amount, Survives amount 0x8000000000000000 currency issuer "0" := by
  refine ⟨fun negative m e word lower upper least largest layout => ?_, ?_⟩
  · have small : m < 2 ^ 54 := Nat.lt_trans upper (by decide)
    have mantissa := toNat_mantissa small
    have raised := toNat_raised ⟨least, largest⟩
    have made : Layout (issued (!negative) (UInt8.ofNat (e + exponentBias).toNat)
      (BitVec.ofNat 54 m) currency issuer).word negative m e := layout_word small ⟨least, largest⟩
    generalize UInt8.ofNat (e + exponentBias).toNat = biased at *
    generalize BitVec.ofNat 54 m = digits at *
    have settled : (issued (!negative) biased digits currency issuer).Settled := by
      simp only [exponentBias] at raised
      exact .inr (by omega)
    have survives := survives_of_settled settled
    rw [made.unique layout, Bool.not_not, mantissa, raised, Int.add_sub_cancel] at survives
    exact ⟨_, _, survives, Decimal.shown_render negative ⟨lower, upper⟩ (by omega)⟩
  · have settled : (issued false 0 0 currency issuer).Settled := .inl ⟨rfl, rfl, rfl⟩
    exact ⟨_, survives_of_settled settled⟩

theorem issued_survives_least :
    ∃ amount text, Survives amount 0x80438D7EA4C68000 (Currency.ofCode 'U' 'S' 'D') .zero text ∧
      Shown text (unit true * 10 ^ 15 * 10 ^ (-96 : Int)) := by
  have layout : Layout 0x80438D7EA4C68000 true (10 ^ 15) (-96) :=
    ⟨by decide, by decide, by decide, by decide, by decide⟩
  have survives := (issued_survives (Currency.ofCode 'U' 'S' 'D') .zero).1 true (10 ^ 15) (-96)
    0x80438D7EA4C68000 (by decide) (by decide) (by decide) (by decide) layout
  rwa [Nat.cast_pow, Nat.cast_ofNat] at survives

def IsZero : Amount → Prop
  | native _ drops => drops = 0
  | issued _ _ mantissa _ _ => mantissa = 0

/-- What an amount becomes when it is built from its rendering: nothing becomes the only form of it
that is written, and what is out of range is refused. -/
def rebuilt : Amount → Except Error Amount
  | native positive drops =>
    if drops = 0 then .ok (native true 0)
    else if !positive then .error (.overflow (.negativeDrops ("-" ++ toString drops.toNat)))
    else if maxDrops < drops.toNat then .error (.overflow (.drops (toString drops.toNat)))
    else .ok (native positive drops)
  | issued positive biased mantissa currency issuer =>
    let text := Decimal.render (!positive) mantissa.toNat (biased.toNat - (exponentBias : Int))
    if mantissa = 0 then .ok (issued false 0 0 currency issuer)
    else if 177 < biased.toNat then .error (.overflow (.issued text))
    else if biased = 0 then .error (.imprecise (.issued text))
    else .ok (issued positive biased mantissa currency issuer)

section Native
variable {text : String} {negative : Bool} {n : Nat}

theorem refusedDrops_integer (shape : text.toList = (Spelling.integer negative n).text)
    (nonzero : n ≠ 0) (bound : n < 10 ^ 20) :
    RefusedDrops text (unit negative * n) (ofDrops text) := by
  have limits := Spelling.inLimits_of_whole (s := .integer negative n) rfl rfl
    (by rwa [Spelling.significand_integer])
  have value := Spelling.value_integer negative n
  have other : unit negative * n ≠ 0 :=
    mul_ne_zero (Decimal.unit_ne_zero negative) (by exact_mod_cast nonzero)
  rw [← value] at other ⊢
  exact refusedDrops_of_spelled shape.symm limits other

theorem ofDrops_negative (nonzero : n ≠ 0) (bound : n < 10 ^ 20) :
    ofDrops ("-" ++ toString n) = .error (.overflow (.negativeDrops ("-" ++ toString n))) := by
  have shape : ("-" ++ toString n).toList = (Spelling.integer true n).text := by
    rw [Spelling.text_integer, String.toList_append, Decimal.toList_toString]
    rfl
  refine (refusedDrops_integer shape nonzero bound).negative (-n) ?_ (by omega)
  simp [unit]

theorem ofDrops_many (many : maxDrops < n) (bound : n < 10 ^ 20) :
    ofDrops (toString n) = .error (.overflow (.drops (toString n))) := by
  have shape : (toString n).toList = (Spelling.integer false n).text := by
    rw [Spelling.text_integer, Decimal.toList_toString]
    rfl
  refine (refusedDrops_integer shape (by omega) bound).tooMany ?_ ?_
  · rw [Decimal.toList_toString, Text.isDigits_toDigits]
  · rwa [Decimal.toList_toString, Text.natOfDigits_toDigits]

theorem ofJson_toJson_native (positive : Bool) (drops : BitVec 62) :
    ofJson (native positive drops).toJson = (native positive drops).rebuilt := by
  by_cases zero : drops = 0
  · subst zero
    cases positive <;> decide
  have nonzero : drops.toNat ≠ 0 := fun none => zero (BitVec.toNat_inj.mp none)
  have bound : drops.toNat < 10 ^ 20 := Nat.lt_trans drops.isLt (by decide)
  cases positive with
  | false =>
    have filled : (drops == 0) = false := by simpa using zero
    have shown : (native false drops).toJson = .string ("-" ++ toString drops.toNat) := by
      rw [toJson, filled]
      rfl
    rw [shown, rebuilt, if_neg zero]
    exact ofDrops_negative nonzero bound
  | true =>
    have shown : (native true drops).toJson = .string (toString drops.toNat) := by simp [toJson]
    rw [shown, rebuilt, if_neg zero, ofJson]
    by_cases many : maxDrops < drops.toNat
    · rw [ofDrops_many many bound, if_pos many]
      rfl
    · rw [ofDrops_toString (Nat.not_lt.mp many), if_neg many]
      rfl

end Native

section Issued
variable {positive : Bool} {biased : UInt8} {mantissa : BitVec 54} {currency : Currency}
  {issuer : AccountId}

theorem sixteen_of_isNormal (normal : isNormal mantissa.toNat = true) (nonzero : mantissa ≠ 0) :
    10 ^ 15 ≤ mantissa.toNat ∧ mantissa.toNat < 10 ^ 16 := by
  have filled : mantissa.toNat ≠ 0 := fun zero => nonzero (BitVec.toNat_inj.mp zero)
  simpa [isNormal, filled] using normal

theorem exponent_range (biased : UInt8) :
    -900 ≤ biased.toNat - (exponentBias : Int) ∧ biased.toNat - (exponentBias : Int) ≤ 900 := by
  have bound := biased.toNat_lt
  simp only [exponentBias]
  omega

theorem render_zero (negative : Bool) (e : Int) :
    Decimal.render negative (0 : BitVec 54).toNat e = "0" := if_pos rfl

theorem describes_toJson (positive : Bool) (biased : UInt8) (mantissa : BitVec 54)
    (currency : Currency) (issuer : AccountId) :
    Describes (issued positive biased mantissa currency issuer).toJson
      (Decimal.render (!positive) mantissa.toNat (biased.toNat - (exponentBias : Int))) currency
      issuer where
  object := ⟨_, rfl⟩
  value := by simp [toJson, Json.get?, List.lookup_cons]
  currency := ⟨_, rfl, currency.ofJson_toJson⟩
  issuer := ⟨issuer.toJson, by simp [toJson, Json.get?, List.lookup_cons], issuer.ofJson_toJson⟩

theorem ofJson_toJson_issued (normal : isNormal mantissa.toNat = true) :
    ofJson (issued positive biased mantissa currency issuer).toJson =
      (issued positive biased mantissa currency issuer).rebuilt := by
  rw [ofJson_of_describes (describes_toJson positive biased mantissa currency issuer), rebuilt]
  by_cases zero : mantissa = 0
  · subst zero
    have read : Decimal.ofText? "0" = some ⟨false, 0, 0⟩ := by decide
    rw [render_zero, issuedParts_of_zero read rfl, if_pos rfl]
    rfl
  obtain ⟨d, read, sign, nonzero, normal⟩ :=
    Decimal.writes_render (!positive) (sixteen_of_isNormal normal zero) (exponent_range biased)
  have least : biased.toNat - (exponentBias : Int) < -96 ↔ biased = 0 := by
    rw [← UInt8.toNat_inj]
    simp only [exponentBias, UInt8.toNat_zero]
    omega
  have largest : 80 < biased.toNat - (exponentBias : Int) ↔ 177 < biased.toNat := by
    simp only [exponentBias]
    omega
  have filled : d.isZero = false := by simpa [Decimal.isZero] using nonzero
  simp only [issuedParts_of_normalize read filled (normal typeName), least, largest, if_neg zero,
    sign, Bool.not_not, Int.sub_add_cancel, Int.toNat_natCast, UInt8.ofNat_toNat,
    BitVec.ofNat_toNat]
  split
  · rfl
  split <;> rfl

end Issued

theorem ofJson_toJson_rebuilt {amount : Amount} (h : amount.Canonical) :
    ofJson amount.toJson = amount.rebuilt := by
  cases amount with
  | native positive drops => exact ofJson_toJson_native positive drops
  | issued => exact ofJson_toJson_issued h

theorem toJson_native (positive : Bool) (drops : BitVec 62) :
    (native positive drops).toJson =
      .string (String.ofList (Spelling.integer (!(positive || drops == 0)) drops.toNat).text) := by
  rw [toJson, Json.string.injEq]
  apply String.toList_inj.mp
  rw [Spelling.text_integer, String.toList_ofList, String.toList_append, Decimal.toList_toString]
  cases positive || drops == 0 <;> rfl

theorem eq_or_zero_of_native {positive other : Bool} {drops more : BitVec 62}
    (same : (native other more).toJson = (native positive drops).toJson) :
    native other more = native positive drops ∨ more = 0 ∧ drops = 0 := by
  rw [toJson_native, toJson_native, Json.string.injEq, String.ofList_inj] at same
  obtain ⟨sign, number⟩ := Spelling.integer_inj same
  obtain rfl := BitVec.toNat_inj.mp number
  by_cases zero : more = 0
  · exact .inr ⟨zero, zero⟩
  · have filled : (more == 0) = false := by simpa using zero
    rw [filled, Bool.or_false, Bool.or_false, Bool.not_inj_iff] at sign
    rw [sign]
    exact .inl rfl

theorem eq_or_zero_of_issued {positive other : Bool} {biased raised : UInt8}
    {mantissa digits : BitVec 54} {currency code : Currency} {issuer account : AccountId}
    (normal : isNormal mantissa.toNat = true) (digits_normal : isNormal digits.toNat = true)
    (same : (issued other raised digits code account).toJson =
      (issued positive biased mantissa currency issuer).toJson) :
    issued other raised digits code account = issued positive biased mantissa currency issuer ∨
      digits = 0 ∧ mantissa = 0 := by
  have described := describes_toJson other raised digits code account
  rw [same] at described
  obtain ⟨text, rfl, rfl⟩ := described.unique (describes_toJson positive biased mantissa _ _)
  by_cases none : digits = 0
  · by_cases zero : mantissa = 0
    · exact .inr ⟨none, zero⟩
    · rw [none, render_zero] at text
      exact absurd text.symm
        (Decimal.render_ne_zero _ (sixteen_of_isNormal normal zero) (exponent_range biased))
  by_cases zero : mantissa = 0
  · rw [zero, render_zero] at text
    exact absurd text
      (Decimal.render_ne_zero _ (sixteen_of_isNormal digits_normal none) (exponent_range raised))
  · obtain ⟨sign, number, exponent⟩ := Decimal.render_inj (sixteen_of_isNormal digits_normal none)
      (sixteen_of_isNormal normal zero) (exponent_range raised) (exponent_range biased) text
    have exponents : raised.toNat = biased.toNat := by omega
    obtain rfl := BitVec.toNat_inj.mp number
    obtain rfl := UInt8.toNat_inj.mp exponents
    rw [Bool.not_inj_iff.mp sign]
    exact .inl rfl

theorem eq_or_zero_of_toJson {amount other : Amount} (h : amount.Canonical)
    (other_canonical : other.Canonical) (same : other.toJson = amount.toJson) :
    other = amount ∨ other.IsZero ∧ amount.IsZero := by
  cases amount with
  | native positive drops =>
    cases other with
    | native => exact eq_or_zero_of_native same
    | issued => cases same
  | issued positive biased mantissa currency issuer =>
    cases other with
    | native => cases same
    | issued => exact eq_or_zero_of_issued h other_canonical same

theorem eq_of_rebuilt {amount again : Amount} (filled : ¬ amount.IsZero)
    (h : amount.rebuilt = .ok again) : again = amount := by
  cases amount with
  | native positive drops =>
    have nonzero : drops ≠ 0 := filled
    rw [rebuilt, if_neg nonzero] at h
    split at h
    · cases h
    split at h <;> cases h
    rfl
  | issued positive biased mantissa currency issuer =>
    have nonzero : mantissa ≠ 0 := filled
    simp only [rebuilt, if_neg nonzero] at h
    split at h
    · cases h
    split at h <;> cases h
    rfl

theorem exists_built_iff {amount : Amount} (h : amount.Canonical) :
    (∃ again, ofJson amount.toJson = .ok again) ↔ amount.Settled ∨ amount.IsZero := by
  constructor
  · rintro ⟨again, built⟩
    by_cases zero : amount.IsZero
    · exact .inr zero
    · have same := built
      rw [ofJson_toJson_rebuilt h] at same
      rw [eq_of_rebuilt zero same] at built
      exact .inl (settled_of_ofJson built)
  · rintro (settled | zero)
    · exact ⟨amount, ofJson_toJson settled⟩
    · rw [ofJson_toJson_rebuilt h]
      cases amount <;> exact ⟨_, if_pos zero⟩

/-- An amount that is read stands for its bytes and is built again from its rendering exactly if it
is settled. What else can be built again is a zero, and only zeros are rendered alike. -/
theorem reencoding_of_read {announced : Option Nat} {before after : Cursor} {amount : Amount}
    (h : read announced before = .ok amount after) :
    Passes before amount.toBytes after ∧
    ofJson amount.toJson = amount.rebuilt ∧
    (ofJson amount.toJson = .ok amount ↔ amount.Settled) ∧
    ((∃ again, ofJson amount.toJson = .ok again) ↔ amount.Settled ∨ amount.IsZero) ∧
    ∀ announced before after other, read announced before = .ok other after →
      other.toJson = amount.toJson → other = amount ∨
        other.IsZero ∧ amount.IsZero ∧ ¬ (other.Settled ∧ amount.Settled) := by
  have canonical := canonical_of_read h
  refine ⟨passes_read h, ofJson_toJson_rebuilt canonical, ⟨settled_of_ofJson, ofJson_toJson⟩,
    exists_built_iff canonical, fun _ _ _ other other_read same => ?_⟩
  by_cases settled : other.Settled ∧ amount.Settled
  · have built := ofJson_toJson settled.1
    rw [same, ofJson_toJson settled.2] at built
    exact .inl (Except.ok.inj built).symm
  · refine (eq_or_zero_of_toJson canonical (canonical_of_read other_read) same).imp_right ?_
    exact fun zeros => ⟨zeros.1, zeros.2, settled⟩

theorem read_whole (amount : Amount) (h : amount.Canonical) :
    read none ⟨0, amount.toBytes⟩ = .ok amount ⟨amount.toBytes.length, []⟩ := by
  have taken := read_toBytes h (.inl rfl) 0 []
  rwa [List.append_nil, Nat.zero_add] at taken

def issuedZero (positive : Bool) : Amount := issued positive 0 0 (Currency.ofCode 'U' 'S' 'D') .zero

def zeroBack : Bytes := (Currency.ofCode 'U' 'S' 'D').bytes ++ AccountId.zero.bytes

/-- Two words are read as different amounts with one rendering, which is built as the second of
them. Minus one drop is read but never built. -/
theorem zero_read_twice :
    read none ⟨0, beBytes 8 0xC000000000000000 ++ zeroBack⟩ = .ok (issuedZero true) ⟨48, []⟩ ∧
    read none ⟨0, beBytes 8 0x8000000000000000 ++ zeroBack⟩ = .ok (issuedZero false) ⟨48, []⟩ ∧
    issuedZero true ≠ issuedZero false ∧
    ofJson (issuedZero true).toJson = .ok (issuedZero false) ∧
    read none ⟨0, beBytes 8 1⟩ = .ok (native false 1) ⟨8, []⟩ ∧
    ofJson (native false 1).toJson = .error (.overflow (.negativeDrops "-1")) :=
  ⟨read_whole (issuedZero true) rfl, read_whole (issuedZero false) rfl,
    by decide, ofJson_toJson_issued rfl, read_whole (native false 1) trivial,
    ofJson_toJson_native false 1⟩

theorem reencoding_of_read_positiveZero :
    read none ⟨0, beBytes 8 0xC000000000000000 ++ zeroBack⟩ = .ok (issuedZero true) ⟨48, []⟩ ∧
    ofJson (issuedZero true).toJson ≠ .ok (issuedZero true) := by
  have taken : read none ⟨0, beBytes 8 0xC000000000000000 ++ zeroBack⟩ =
      .ok (issuedZero true) ⟨48, []⟩ := read_whole (issuedZero true) rfl
  obtain ⟨-, -, settled, -⟩ := reencoding_of_read taken
  refine ⟨taken, fun built => ?_⟩
  rcases settled.mp built with ⟨negative, -⟩ | ⟨digits, -⟩
  · cases negative
  · exact absurd digits (by decide)

end Amount
end LedgerWire
