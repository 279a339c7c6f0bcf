import LedgerWire.Leaf.Account
import LedgerWire.Proofs.Base58
import LedgerWire.Proofs.Outcome

namespace LedgerWire

theorem beValue_append (front back : Bytes) :
    beValue (front ++ back) = beValue front * capacity back.length + beValue back := by
  suffices general : ∀ n (back : Bytes), back.length = n →
      beValue (front ++ back) = beValue front * capacity n + beValue back from general _ back rfl
  intro n
  induction n with
  | zero =>
    intro back length
    obtain rfl := List.length_eq_zero_iff.mp length
    simp [capacity, beValue]
  | succ n ih =>
    intro back length
    obtain ⟨shorter, b, rfl, short⟩ := exists_append_singleton back n length
    rw [← List.append_assoc, beValue_append_singleton, ih shorter short,
      beValue_append_singleton, capacity]
    simp only [Nat.add_mul, Nat.mul_assoc, Nat.add_assoc]

theorem beValue_cons (b : UInt8) (rest : Bytes) :
    beValue (b :: rest) = b.toNat * capacity rest.length + beValue rest := by
  have one : beValue [b] = b.toNat := by simp [beValue]
  rw [← List.singleton_append, beValue_append, one]

namespace Digest

theorem length_hash {W : Type} (v : Variant W) (message : Bytes) :
    (v.hash message).length = 8 * v.wordBytes := by
  simp only [Variant.hash, State.toList, List.flatMap_cons, List.flatMap_nil, List.length_append,
    length_beBytes, List.length_nil]
  omega

end Digest

namespace Address

@[simp] theorem length_checksum (body : Bytes) : (checksum body).length = checksumLength := by
  have whole : (Digest.sha256 (Digest.sha256 body)).length = 32 := Digest.length_hash _ _
  rw [checksum, List.length_take, whole]
  rfl

theorem openBody_sealBody {body : Bytes} (nonempty : body ≠ []) :
    openBody (sealBody body) = .ok body := by
  have positive : 0 < body.length := List.length_pos_iff.mpr nonempty
  have whole : (body ++ checksum body).length = body.length + checksumLength := by simp
  have front : (body ++ checksum body).length - checksumLength = body.length := by omega
  rw [openBody, sealBody, Base58.decode_encode]
  simp only [front, List.take_left', List.drop_left', if_true]
  rw [if_neg (by omega)]

theorem sealBody_of_openBody {text : String} {body : Bytes} (h : openBody text = .ok body) :
    body ≠ [] ∧ text = sealBody body := by
  rw [openBody] at h
  split at h
  · cases h
  · rename_i bytes read
    split at h
    · cases h
    · rename_i enough
      simp only at h
      split at h
      · rename_i sound
        cases h
        refine ⟨?_, ?_⟩
        · intro empty
          have none_left := congrArg List.length empty
          rw [List.length_take, List.length_nil] at none_left
          omega
        · rw [sealBody, sound, List.take_append_drop, Base58.encode_decode read]
      · cases h

theorem length_sealBody_le {body : Bytes} {k : Nat}
    (h : 256 ^ (body.length + checksumLength) ≤ 58 ^ k) : (sealBody body).length ≤ k := by
  apply Base58.length_encode_le
  simpa using h

theorem decodeToken_sealBody {versions : List Bytes} {version : Bytes} {n : Nat}
    {payload : Octets n} (nonempty : version ++ payload.val ≠ [])
    (first : versions.find? (·.isPrefixOf (version ++ payload.val)) = some version) :
    decodeToken versions n (sealBody (version ++ payload.val)) = .ok ⟨version, payload⟩ := by
  simp only [decodeToken, openBody_sealBody nonempty, bind, Except.bind, first,
    List.drop_left' rfl, payload.property, dif_pos]

theorem sealBody_of_decodeToken {versions : List Bytes} {n : Nat} {text : String} {token : Token n}
    (h : decodeToken versions n text = .ok token) :
    token.version ∈ versions ∧ text = sealBody (token.version ++ token.payload.val) := by
  obtain ⟨body, opened, read⟩ := bind_eq_ok.mp h
  obtain ⟨-, rfl⟩ := sealBody_of_openBody opened
  split at read
  · cases read
  · rename_i version found
    have front := List.find?_some found
    simp only [List.isPrefixOf_iff_prefix] at front
    obtain ⟨rest, rfl⟩ := front
    simp only at read
    split at read
    · cases read
      exact ⟨List.mem_of_find?_eq_some found, by simp⟩
    · cases read

end Address

namespace AccountId

def classicBody (account : AccountId) : Bytes :=
  Address.Kind.account.version ++ account.bytes

theorem length_classicBody (account : AccountId) : account.classicBody.length = 21 := by
  simp [classicBody, Address.Kind.version]

theorem openBody_address (account : AccountId) :
    Address.openBody account.address = .ok account.classicBody := by
  apply Address.openBody_sealBody
  simp [Address.Kind.version]

theorem length_address_le (account : AccountId) : account.address.length ≤ 35 := by
  apply Address.length_sealBody_le
  rw [← classicBody, length_classicBody]
  decide

theorem toList_address (account : AccountId) :
    ∃ rest, account.address.toList = 'r' :: rest := by
  have zero (ds : List Nat) : Base58.rebase 256 58 (0 :: ds) = 0 :: Base58.rebase 256 58 ds := rfl
  rw [address, Address.sealBody, Base58.encode, String.toList_ofList]
  exact ⟨_, congrArg (List.map Base58.letter) (zero _)⟩

theorem ofClassic_address (account : AccountId) : ofClassic account.address = .ok account := by
  have read : Address.decodeToken [Address.Kind.account.version] 20 account.address =
      .ok ⟨Address.Kind.account.version, account.octets⟩ :=
    Address.decodeToken_sealBody (by simp [Address.Kind.version]) rfl
  rw [ofClassic, Address.Kind.decode]
  exact map_eq_ok.mpr ⟨_, map_eq_ok.mpr ⟨_, read, rfl⟩, rfl⟩

theorem eq_address_of_ofClassic {text : String} {account : AccountId}
    (h : ofClassic text = .ok account) : text = account.address := by
  obtain ⟨payload, decoded, rfl⟩ := map_eq_ok.mp h
  obtain ⟨token, read, rfl⟩ := map_eq_ok.mp decoded
  obtain ⟨version, written⟩ := Address.sealBody_of_decodeToken read
  rw [List.mem_singleton] at version
  rw [written, version]
  rfl

end AccountId

namespace TaggedAddress

theorem length_tagBytes (tag : Option UInt32) : (tagBytes tag).length = 5 := by
  cases tag <;> simp [tagBytes]

theorem length_version (network : Network) : network.version.length = 2 := by
  cases network <;> rfl

theorem ofVersion?_version (network : Network) :
    Network.ofVersion? network.version = some network := by
  cases network <;> rfl

theorem length_body (x : TaggedAddress) : x.body.length = bodyLength := by
  simp [body, length_tagBytes, length_version, bodyLength]

theorem parts_of_body (x : TaggedAddress) :
    x.body.take 2 = x.network.version ∧ (x.body.drop 2).take 20 = x.account.bytes ∧
      (x.body.drop 22).take 5 = tagBytes x.tag ∧ x.body.drop 27 = List.replicate 4 0 := by
  have version := length_version x.network
  have account := x.account.length_bytes
  have tag := length_tagBytes x.tag
  have shape : x.body =
      x.network.version ++ (x.account.bytes ++ (tagBytes x.tag ++ List.replicate 4 0)) := by
    simp [body]
  have front : x.body.drop 2 = x.account.bytes ++ (tagBytes x.tag ++ List.replicate 4 0) := by
    rw [shape, List.drop_left' version]
  have middle : x.body.drop 22 = tagBytes x.tag ++ List.replicate 4 0 := by
    rw [show 22 = 2 + 20 from rfl, ← List.drop_drop, front, List.drop_left' account]
  have back : x.body.drop 27 = List.replicate 4 0 := by
    rw [show 27 = 22 + 5 from rfl, ← List.drop_drop, middle, List.drop_left' tag]
  exact ⟨by rw [shape, List.take_left' version], by rw [front, List.take_left' account],
    by rw [middle, List.take_left' tag], back⟩

theorem tagOf_tagBytes (tag : Option UInt32) :
    tagOf ((tagBytes tag).getD 0 0) (beValue (((tagBytes tag).drop 1).take 4).reverse) =
      .ok tag := by
  cases tag with
  | none => decide
  | some tag =>
    have bound : tag.toNat < 4294967296 := tag.toNat_lt
    have bytes : (((beBytes 4 tag.toNat).reverse.take 4).reverse) = beBytes 4 tag.toNat := by
      rw [List.take_of_length_le (by simp), List.reverse_reverse]
    have value : beValue (beBytes 4 tag.toNat) = tag.toNat := by
      rw [beValue_beBytes]
      exact Nat.mod_eq_of_lt bound
    simp only [tagBytes, List.getD_cons_zero, List.drop_succ_cons, List.drop_zero, bytes, value]
    simp [tagOf]

theorem ofBody_body (x : TaggedAddress) : ofBody x.body = .ok x := by
  obtain ⟨version, account, tag, zeros⟩ := x.parts_of_body
  have flag : x.body.getD 22 0 = (tagBytes x.tag).getD 0 0 := by
    rw [← tag]
    simp
  have number : (x.body.drop 23).take 4 = ((tagBytes x.tag).drop 1).take 4 := by
    rw [← tag, List.drop_take, List.drop_drop, List.take_take]
    rfl
  rw [ofBody, dif_pos x.length_body]
  simp only [version, ofVersion?_version, zeros, if_true, flag, number, tagOf_tagBytes, account]
  rfl

theorem decode_encode (x : TaggedAddress) : decode x.encode = .ok x := by
  have nonempty : x.body ≠ [] := by
    intro empty
    have length := x.length_body
    rw [empty] at length
    cases length
  rw [decode, encode, Address.openBody_sealBody nonempty]
  exact ofBody_body x

theorem openBody_of_decode {text : String} {x : TaggedAddress} (h : decode text = .ok x) :
    ∃ first rest, Address.openBody text = .ok (first :: rest) ∧ rest.length = 30 ∧
      (first = 4 ∨ first = 5) := by
  rw [decode] at h
  split at h
  · rename_i body opened
    rw [ofBody] at h
    split at h
    · rename_i length
      split at h
      · cases h
      · rename_i network found
        obtain ⟨first, rest, rfl⟩ : ∃ first rest, body = first :: rest :=
          List.exists_cons_of_length_eq_add_one length
        have version : network.version = (first :: rest).take 2 := by
          simpa using List.find?_some found
        refine ⟨first, rest, opened, by simpa [bodyLength] using length, ?_⟩
        cases network
        · exact .inr (List.cons.inj version).1.symm
        · exact .inl (List.cons.inj version).1.symm
    · cases h
  · cases h

theorem length_of_decode {text : String} {x : TaggedAddress} (h : decode text = .ok x) :
    text.length = 47 := by
  obtain ⟨first, rest, opened, length, version⟩ := openBody_of_decode h
  obtain ⟨-, rfl⟩ := Address.sealBody_of_openBody opened
  have sealed : ((rest ++ Address.checksum (first :: rest))).length = 34 := by
    simp [length, Address.checksumLength]
  have value := beValue_cons first (rest ++ Address.checksum (first :: rest))
  have bound := beValue_lt (rest ++ Address.checksum (first :: rest))
  have nonzero : first ≠ 0 := by rcases version with rfl | rfl <;> decide
  have lead : first.toNat = 4 ∨ first.toNat = 5 := by rcases version with rfl | rfl <;> decide
  rw [sealed] at value bound
  have lower : 58 ^ 46 ≤ beValue (first :: (rest ++ Address.checksum (first :: rest))) := by
    rw [value]
    rcases lead with four | five <;> simp only [capacity] at * <;> omega
  have upper : beValue (first :: (rest ++ Address.checksum (first :: rest))) < 58 ^ 47 := by
    rw [value]
    rcases lead with four | five <;> simp only [capacity] at * <;> omega
  have long := Base58.lt_length_encode lower
  have short := Base58.length_encode_of_lead nonzero upper
  rw [Address.sealBody, List.cons_append]
  omega

end TaggedAddress

namespace AccountId

theorem length_of_isHexId {text : String} (h : isHexId text = true) : text.length = 40 := by
  simp only [isHexId, Bool.and_eq_true, beq_iff_eq] at h
  rw [← String.length_toList]
  exact h.1

theorem decode_eq_error (text : String) (h : text.length ≠ 47) :
    ∃ fault, TaggedAddress.decode text = .error fault := by
  cases read : TaggedAddress.decode text with
  | error fault => exact ⟨fault, rfl⟩
  | ok x => exact absurd (TaggedAddress.length_of_decode read) h

/-- A classic address is too short for a tagged one. -/
theorem decode_address_ne_ok (account : AccountId) (x : TaggedAddress) :
    TaggedAddress.decode account.address ≠ .ok x := by
  intro read
  have long := TaggedAddress.length_of_decode read
  have short := account.length_address_le
  omega

theorem address_ne_empty (account : AccountId) : account.address ≠ "" := by
  intro empty
  have opened := account.openBody_address
  rw [empty] at opened
  have refused : Address.openBody "" = .error (.length 5 0) := by decide +kernel
  rw [refused] at opened
  cases opened

theorem ofText_address (account : AccountId) : ofText account.address = .ok account := by
  have short := account.length_address_le
  have not_hex : ¬ isHexId account.address = true := by
    intro hex
    have length := length_of_isHexId hex
    omega
  obtain ⟨fault, untagged⟩ := decode_eq_error account.address (by omega)
  rw [ofText, if_neg account.address_ne_empty, if_neg not_hex, untagged]
  simp only [ofClassic_address]
  rfl

/-- A tagged address is too long to be anything else. -/
theorem ofText_tagged {text : String} {account : AccountId} {x : TaggedAddress}
    (packed : TaggedAddress.decode text = .ok x) :
    ofText text = .ok account ↔ x.tag = none ∧ x.account = account := by
  have long := TaggedAddress.length_of_decode packed
  have filled : text ≠ "" := by
    rintro rfl
    cases long
  have not_hex : ¬ isHexId text = true := by
    intro hex
    have digits := length_of_isHexId hex
    omega
  rw [ofText, if_neg filled, if_neg not_hex, packed]
  cases tag : x.tag <;> simp [tag]

theorem tag_eq_none_of_ofText {text : String} {account : AccountId} {x : TaggedAddress}
    (accepted : ofText text = .ok account) (packed : TaggedAddress.decode text = .ok x) :
    x.tag = none :=
  ((ofText_tagged packed).mp accepted).1

end AccountId
end LedgerWire
