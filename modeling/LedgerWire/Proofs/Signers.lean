import LedgerWire.CommandLine
import LedgerWire.Proofs.LeafRendering
import LedgerWire.Proofs.SigningScope

namespace LedgerWire

/-- The text is a classic address of the account, or a tagged one without a tag. -/
inductive Addresses (text : String) (account : AccountId) : Prop
  | classic : AccountId.ofClassic text = .ok account → Addresses text account
  | untagged {network : Network} :
      TaggedAddress.decode text = .ok ⟨account, none, network⟩ → Addresses text account

/-- The text is no address: it is empty for the account of zeros, or it is the digits of the
account. -/
inductive Abbreviates : String → AccountId → Prop
  | empty : Abbreviates "" .zero
  | digits {text : String} {account : AccountId} :
      AccountId.isHexId text = true → Hex.decode text = .ok account.bytes →
      Abbreviates text account

section Texts
variable {text : String} {account : AccountId}

theorem Addresses.length (h : Addresses text account) :
    text ≠ "" ∧ (text.length ≤ 35 ∨ text.length = 47) := by
  cases h with
  | classic read =>
    rw [AccountId.eq_address_of_ofClassic read]
    exact ⟨account.address_ne_empty, .inl account.length_address_le⟩
  | untagged read =>
    have long := TaggedAddress.length_of_decode read
    refine ⟨?_, .inr long⟩
    rintro rfl
    cases long

theorem Addresses.not_isHexId (h : Addresses text account) : ¬ AccountId.isHexId text = true := by
  intro hex
  have digits := AccountId.length_of_isHexId hex
  have bounds := h.length.2
  omega

theorem Abbreviates.length (h : Abbreviates text account) : text = "" ∨ text.length = 40 := by
  cases h with
  | empty => exact .inl rfl
  | digits hex => exact .inr (AccountId.length_of_isHexId hex)

theorem Abbreviates.not_addresses (h : Abbreviates text account) (other : AccountId) :
    ¬ Addresses text other := by
  intro addresses
  cases h with
  | empty => exact addresses.length.1 rfl
  | digits hex => exact addresses.not_isHexId hex

namespace AccountId

theorem ofText_hex (hex : isHexId text = true) :
    ofText text = .ok account ↔ Hex.decode text = .ok account.bytes := by
  have filled : text ≠ "" := by
    rintro rfl
    cases length_of_isHexId hex
  rw [ofText, if_neg filled, if_pos hex, bind_eq_ok]
  constructor
  · rintro ⟨bytes, read, h⟩
    obtain ⟨octets, sized, same⟩ := bind_eq_ok.mp h
    cases same
    rw [hexBytes_eq_ok.mp read, exactly_eq_ok.mp sized]
    rfl
  · intro read
    exact ⟨_, hexBytes_eq_ok.mpr read, bind_eq_ok.mpr ⟨_, exactly_eq_ok.mpr rfl, rfl⟩⟩

theorem ofText_other {fault : Address.Fault} (filled : text ≠ "")
    (not_hex : ¬ isHexId text = true) (unpacked : TaggedAddress.decode text = .error fault) :
    ofText text = .ok account ↔ ofClassic text = .ok account := by
  rw [ofText, if_neg filled, if_neg not_hex, unpacked]
  cases ofClassic text <;> simp [Except.mapError]

theorem ofText_eq_ok_iff :
    ofText text = .ok account ↔ Addresses text account ∨ Abbreviates text account := by
  constructor
  · intro read
    by_cases empty : text = ""
    · subst empty
      cases read
      exact .inr .empty
    by_cases hex : isHexId text = true
    · exact .inr (.digits hex ((ofText_hex hex).mp read))
    cases packed : TaggedAddress.decode text with
    | ok x =>
      obtain ⟨holder, tag, network⟩ := x
      obtain ⟨rfl, rfl⟩ := (ofText_tagged packed).mp read
      exact .inl (.untagged packed)
    | error fault => exact .inl (.classic ((ofText_other empty hex packed).mp read))
  · rintro ((read | packed) | (_ | ⟨hex, read⟩))
    · rw [eq_address_of_ofClassic read]
      exact ofText_address account
    · exact (ofText_tagged packed).mpr ⟨rfl, rfl⟩
    · rfl
    · exact (ofText_hex hex).mpr read

end AccountId

theorem isAddress_iff : CommandLine.isAddress text = true ↔
    (∃ account, AccountId.ofClassic text = .ok account) ∨
      ∃ x, TaggedAddress.decode text = .ok x := by
  rw [CommandLine.isAddress, Bool.or_eq_true, TaggedAddress.isValid]
  refine or_congr ?_ ?_
  · cases AccountId.ofClassic text <;> simp [Except.toBool]
  · cases TaggedAddress.decode text <;> simp

theorem Addresses.isAddress (h : Addresses text account) : CommandLine.isAddress text = true := by
  rw [isAddress_iff]
  cases h with
  | classic read => exact .inl ⟨account, read⟩
  | untagged read => exact .inr ⟨_, read⟩

theorem Abbreviates.not_isAddress (h : Abbreviates text account) :
    CommandLine.isAddress text = false := by
  rw [Bool.eq_false_iff]
  intro checked
  rcases isAddress_iff.mp checked with ⟨other, read⟩ | ⟨x, packed⟩
  · exact h.not_addresses other (.classic read)
  · have long := TaggedAddress.length_of_decode packed
    rcases h.length with rfl | forty
    · cases long
    · omega

end Texts

namespace Registry
variable {registry : Registry} {v : Json}

variable (registry) in
/-- What the account signs of a transaction that others sign as well. -/
structure SignedBy (v : Json) (account : AccountId) (bytes : Bytes) : Prop where
  keyless : v.get? "SigningPubKey" = some (.string "")
  covers : ∃ body, registry.encodeForSigning v = .ok ([0x53, 0x54, 0x58, 0x00] ++ body) ∧
    bytes = [0x53, 0x4D, 0x54, 0x00] ++ body ++ account.bytes

theorem encodeForMultisigning_iff_signedBy {signer : String} {bytes : Bytes} :
    registry.encodeForMultisigning v signer = .ok bytes ↔
      ∃ account, AccountId.ofText signer = .ok account ∧ registry.SignedBy v account bytes := by
  rw [encodeForMultisigning_eq_ok_iff]
  constructor
  · rintro ⟨keyless, account, body, read, made, rfl⟩
    exact ⟨account, read, keyless, body, encodeForSigning_eq_ok_iff.mpr ⟨body, made, rfl⟩, rfl⟩
  · rintro ⟨account, read, keyless, body, signed, rfl⟩
    obtain ⟨fields, made, same⟩ := encodeForSigning_eq_ok_iff.mp signed
    obtain rfl := List.append_cancel_left same
    exact ⟨keyless, account, body, read, made, rfl⟩

/-- Data is made for a signer exactly if the transaction has an empty key and can be signed, and the
text of the signer stands for an account, as an address or as an abbreviation. The check of the
command line refuses the abbreviations and none of the addresses; behind it data is made for
addresses alone. -/
theorem multisigning_signers (registry : Registry) (v : Json) (signer : String) :
    (∀ bytes, registry.encodeForMultisigning v signer = .ok bytes ↔
      ∃ account, (Addresses signer account ∨ Abbreviates signer account) ∧
        registry.SignedBy v account bytes) ∧
    (∀ account, Addresses signer account → CommandLine.isAddress signer = true) ∧
    (∀ account, Abbreviates signer account → CommandLine.isAddress signer = false) ∧
    (CommandLine.isAddress signer = true → ∀ bytes,
      registry.encodeForMultisigning v signer = .ok bytes ↔
        ∃ account, Addresses signer account ∧ registry.SignedBy v account bytes) := by
  have made (bytes : Bytes) : registry.encodeForMultisigning v signer = .ok bytes ↔
      ∃ account, (Addresses signer account ∨ Abbreviates signer account) ∧
        registry.SignedBy v account bytes := by
    simp only [encodeForMultisigning_iff_signedBy, AccountId.ofText_eq_ok_iff]
  refine ⟨made, fun account => Addresses.isAddress, fun account => Abbreviates.not_isAddress,
    fun checked bytes => ?_⟩
  have unabbreviated (account : AccountId) : ¬ Abbreviates signer account := by
    intro abbreviates
    rw [abbreviates.not_isAddress] at checked
    cases checked
  simp only [made, unabbreviated, or_false]

def keyless : Json := .object [("SigningPubKey", .string "")]

theorem checked_keyless :
    bundled.encodeForSigning keyless = .ok [0x53, 0x54, 0x58, 0x00, 0x73, 0x00] := by
  rw [bundled_eq]
  decide +kernel

theorem multisigning_signers_untagged :
    CommandLine.isAddress (TaggedAddress.encode ⟨Asset.reserved, none, .test⟩) = true ∧
    bundled.encodeForMultisigning keyless (TaggedAddress.encode ⟨Asset.reserved, none, .test⟩) =
      .ok ([0x53, 0x4D, 0x54, 0x00, 0x73, 0x00] ++ List.replicate 19 0 ++ [1]) := by
  obtain ⟨-, addressed, -, made⟩ :=
    multisigning_signers bundled keyless (TaggedAddress.encode ⟨Asset.reserved, none, .test⟩)
  have untagged : Addresses (TaggedAddress.encode ⟨Asset.reserved, none, .test⟩) Asset.reserved :=
    .untagged (TaggedAddress.decode_encode _)
  have signed : bundled.SignedBy keyless Asset.reserved
      ([0x53, 0x4D, 0x54, 0x00, 0x73, 0x00] ++ List.replicate 19 0 ++ [1]) :=
    ⟨rfl, [0x73, 0x00], checked_keyless, by decide⟩
  have checked := addressed _ untagged
  exact ⟨checked, (made checked _).mpr ⟨_, untagged, signed⟩⟩

/-- No address is empty, but an empty text makes the account of zeros sign. -/
theorem multisigning_for_nobody :
    keyless.get? "SigningPubKey" = some (.string "") ∧
    bundled.encodeForMultisigning keyless "" =
      .ok ([0x53, 0x4D, 0x54, 0x00, 0x73, 0x00] ++ List.replicate 20 0) ∧
    ¬ ∃ account, Addresses "" account := by
  have signed : bundled.SignedBy keyless .zero
      ([0x53, 0x4D, 0x54, 0x00, 0x73, 0x00] ++ List.replicate 20 0) :=
    ⟨rfl, [0x73, 0x00], checked_keyless, rfl⟩
  refine ⟨rfl, encodeForMultisigning_iff_signedBy.mpr ⟨.zero, rfl, signed⟩, ?_⟩
  rintro ⟨account, addresses⟩
  exact addresses.length.1 rfl

end Registry
end LedgerWire
