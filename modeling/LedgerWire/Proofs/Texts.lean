import LedgerWire.Proofs.LeafForms
import LedgerWire.Proofs.Lawful

namespace LedgerWire

inductive Json.Spells (text : String) : Json → Prop
  | here : Spells text (.string text)
  | item {items : List Json} {json : Json} : json ∈ items → Spells text json →
      Spells text (.array items)
  | member {members : List (String × Json)} {name : String} {json : Json} :
      (name, json) ∈ members → Spells text json → Spells text (.object members)

/-- No text in the value has the length of a tagged address. -/
def Json.Untaggable (json : Json) : Prop :=
  ∀ text, json.Spells text → text.length ≠ 47

namespace Json

theorem untaggable_string {text : String} (h : text.length ≠ 47) :
    (Json.string text).Untaggable := by
  rintro _ ⟨⟩
  exact h

theorem untaggable_number (number : Numeral) : (Json.number number).Untaggable := by
  rintro _ ⟨⟩

theorem untaggable_array {items : List Json} (h : ∀ json ∈ items, json.Untaggable) :
    (Json.array items).Untaggable := by
  rintro text spelled
  cases spelled with
  | item member inside => exact h _ member text inside

theorem untaggable_object {members : List (String × Json)}
    (h : ∀ member ∈ members, member.2.Untaggable) : (Json.object members).Untaggable := by
  rintro text spelled
  cases spelled with
  | member member inside => exact h _ member text inside

theorem untaggable_hex (bytes : Bytes) : (Json.string (Hex.encode bytes)).Untaggable := by
  apply untaggable_string
  rw [Hex.length_encode]
  omega

theorem decode_ne_ok {json : Json} (h : json.Untaggable) {text : String}
    (spelled : json.Spells text) (x : TaggedAddress) : TaggedAddress.decode text ≠ .ok x :=
  fun read => h text spelled (TaggedAddress.length_of_decode read)

end Json

theorem Currency.length_text (currency : Currency) :
    currency.text.length = 3 ∨ currency.text.length = 40 := by
  rw [text]
  split
  · rename_i code coded
    simp only [code?] at coded
    split at coded
    · cases coded
      exact .inl (by simp)
    · cases coded
  split
  · exact .inl rfl
  · refine .inr ?_
    rw [Hex.length_encode, length_bytes]

theorem Currency.untaggable (currency : Currency) : currency.toJson.Untaggable := by
  apply Json.untaggable_string
  rcases currency.length_text with three | forty <;> omega

theorem AccountId.untaggable (account : AccountId) : account.toJson.Untaggable := by
  apply Json.untaggable_string
  have short := account.length_address_le
  omega

theorem Asset.untaggable (asset : Asset) : asset.toJson.Untaggable := by
  cases asset with
  | native =>
    apply Json.untaggable_object
    simpa using Json.untaggable_string (by decide)
  | issued currency issuer =>
    apply Json.untaggable_object
    simp [currency.untaggable, issuer.untaggable]
  | token issuer sequence =>
    apply Json.untaggable_object
    simpa using Json.untaggable_hex _

theorem Bridge.untaggable (bridge : Bridge) : bridge.membersJson.Untaggable := by
  apply Json.untaggable_object
  simp [AccountId.untaggable, Asset.untaggable]

theorem PathSet.untaggable (set : PathSet) : set.toJson.Untaggable := by
  apply Json.untaggable_array
  intro json member
  obtain ⟨path, -, rfl⟩ := List.mem_map.mp member
  apply Json.untaggable_array
  intro json member
  obtain ⟨⟨account, currency, issuer⟩, -, rfl⟩ := List.mem_map.mp member
  apply Json.untaggable_object
  cases account <;> cases currency <;> cases issuer <;>
    simp [AccountId.untaggable, Currency.untaggable]

theorem length_le_utf8ByteSize (text : String) : text.length ≤ text.utf8ByteSize := by
  suffices general : ∀ chars : List Char, chars.length ≤ (String.ofList chars).utf8ByteSize by
    have whole := general text.toList
    rwa [String.length_toList, String.ofList_toList] at whole
  intro chars
  induction chars with
  | nil => exact Nat.le_refl 0
  | cons c chars ih =>
    have size := c.utf8Size_pos
    rw [← List.singleton_append, String.ofList_append, String.utf8ByteSize_append,
      ← String.singleton_eq_ofList, String.utf8ByteSize_singleton, List.length_append,
      List.length_singleton]
    omega

theorem length_toString_le {n k : Nat} (positive : 0 < k) (h : n < 10 ^ k) :
    (toString n).length ≤ k := by
  rw [← String.length_toList, Decimal.toList_toString]
  exact Decimal.length_toDigits_le positive h

theorem length_toString_int_le {i : Int} {k : Nat} (positive : 0 < k) (h : i.natAbs < 10 ^ k) :
    (toString i).length ≤ k + 1 := by
  have digits := Decimal.length_toDigits_le positive h
  rw [← String.length_toList, Decimal.toList_toString_int, List.length_append]
  split
  · rw [List.length_singleton]
    omega
  · rw [List.length_nil]
    omega

theorem Amount.untaggable {amount : Amount} (canonical : amount.Canonical) :
    amount.toJson.Untaggable := by
  cases amount with
  | native positive drops =>
    apply Json.untaggable_string
    have bound : drops.toNat < 4611686018427387904 := drops.isLt
    have digits : (toString drops.toNat).length ≤ 20 := length_toString_le (by decide) (by omega)
    have sign : (if positive || drops == 0 then "" else "-").length ≤ 1 := by
      split <;> decide
    rw [String.length_append]
    omega
  | issued positive biased mantissa currency issuer =>
    have exponent := biased.toNat_lt
    have bound : mantissa.toNat < 10 ^ 16 := by
      rw [Canonical, isNormal, Bool.or_eq_true, Bool.and_eq_true, beq_iff_eq, decide_eq_true_eq,
        decide_eq_true_eq] at canonical
      omega
    have short : (Decimal.render (!positive) mantissa.toNat
        (biased.toNat - (exponentBias : Int))).length < 47 := by
      apply Decimal.length_render_lt _ bound
      simp only [exponentBias]
      omega
    have value := Json.untaggable_string (Nat.ne_of_lt short)
    apply Json.untaggable_object
    simp [currency.untaggable, issuer.untaggable, value]

theorem Quantity.untaggable (q : Quantity) : q.toJson.Untaggable := by
  rw [toJson]
  split
  · exact Json.untaggable_string (by decide)
  · have mantissa : (toString q.mantissa.toInt).length ≤ 19 + 1 := by
      have lower := q.mantissa.le_toInt
      have upper := q.mantissa.toInt_lt
      exact length_toString_int_le (by decide) (by omega)
    have exponent : (toString q.exponent.toInt).length ≤ 10 + 1 := by
      have lower := q.exponent.le_toInt
      have upper := q.exponent.toInt_lt
      exact length_toString_int_le (by decide) (by omega)
    -- Twenty letters, the mark and eleven more stay below 47.
    apply Json.untaggable_string
    rw [String.length_append, String.length_append]
    have mark : "e".length = 1 := rfl
    omega

theorem Leaf.untaggable {leaf : Leaf} (canonical : leaf.Canonical) {json : Json}
    (h : leaf.toJson = .ok json) : json.Untaggable := by
  cases leaf with
  | unsigned u =>
    cases h
    unfold Unsigned.toJson
    split
    · exact Json.untaggable_hex _
    · exact Json.untaggable_number _
  | hash value =>
    cases h
    unfold Hash.toJson
    split
    · exact Json.untaggable_string (by decide)
    · exact Json.untaggable_hex _
  | blob value =>
    cases h
    exact Json.untaggable_hex _
  | currency value =>
    cases h
    exact value.untaggable
  | account value =>
    cases h
    exact value.untaggable
  | amount value =>
    cases h
    exact Amount.untaggable canonical
  | asset value =>
    cases h
    exact value.untaggable
  | hashes value =>
    cases h
    apply Json.untaggable_array
    intro json member
    obtain ⟨hash, -, rfl⟩ := List.mem_map.mp member
    exact Json.untaggable_hex _
  | number value =>
    cases h
    exact value.untaggable
  | paths value =>
    cases h
    exact value.untaggable
  | bridge value =>
    rw [toJson, Bridge.toJson_of_canonical canonical] at h
    cases h
    exact value.untaggable

end LedgerWire
