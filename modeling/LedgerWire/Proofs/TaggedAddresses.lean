import LedgerWire.Proofs.Tokens

namespace LedgerWire.TaggedAddress
open Address (openBody sealBody Kind)

theorem version_of_ofVersion? {bytes : Bytes} {network : Network}
    (h : Network.ofVersion? bytes = some network) : bytes = network.version := by
  have same := List.find?_some h
  exact (beq_iff_eq.mp same).symm

theorem tagBytes_of_tagOf {flag : UInt8} {bytes : Bytes} {tag : Option UInt32}
    (length : bytes.length = 4) (h : tagOf flag (beValue bytes.reverse) = .ok tag) :
    flag :: bytes = tagBytes tag := by
  have reversed : beBytes 4 (beValue bytes.reverse) = bytes.reverse := by
    have whole := beBytes_beValue bytes.reverse
    rwa [List.length_reverse, length] at whole
  unfold tagOf at h
  split at h
  · rename_i unflagged
    split at h
    · rename_i nothing
      cases h
      have zeros : bytes.reverse = [0, 0, 0, 0] := by
        rw [← reversed, nothing]
        rfl
      rw [unflagged, List.reverse_eq_iff.mp zeros]
      rfl
    · cases h
  split at h
  · rename_i flagged
    cases h
    have bound := beValue_lt bytes.reverse
    rw [List.length_reverse, length] at bound
    have number : (UInt32.ofNat (beValue bytes.reverse)).toNat = beValue bytes.reverse :=
      UInt32.toNat_ofNat_of_lt' bound
    rw [tagBytes, number, reversed, List.reverse_reverse, flagged]
  · cases h

theorem body_of_ofBody {bytes : Bytes} {x : TaggedAddress} (h : ofBody bytes = .ok x) :
    bytes = x.body := by
  unfold ofBody at h
  split at h
  · rename_i length
    split at h
    · cases h
    · rename_i network found
      simp only at h
      split at h
      · rename_i zeros
        split at h
        · rename_i tag tagged
          cases h
          have long : bytes.length = 31 := length
          have tag_length : ((bytes.drop 23).take 4).length = 4 := by simp [long]
          have flag : bytes.getD 22 0 :: (bytes.drop 23).take 4 = (bytes.drop 22).take 5 := by
            rw [List.drop_eq_getElem_cons (show 22 < bytes.length by omega), List.take_succ_cons,
              List.getD_eq_getElem _ _ (by omega)]
          calc bytes
              = bytes.take 2 ++ (bytes.drop 2).take 20 ++ (bytes.drop 22).take 5 ++
                  bytes.drop 27 := by
                rw [List.append_assoc, List.append_assoc, show 27 = 22 + 5 from rfl,
                  ← List.drop_drop, List.take_append_drop, show 22 = 2 + 20 from rfl,
                  ← List.drop_drop, List.take_append_drop, List.take_append_drop]
            _ = body ⟨⟨(bytes.drop 2).take 20, by simp [long]⟩, tag, network⟩ := by
                rw [version_of_ofVersion? found, ← flag, tagBytes_of_tagOf tag_length tagged, zeros]
                rfl
        · cases h
      · cases h
  · cases h

theorem ofBody_eq_ok {bytes : Bytes} {x : TaggedAddress} :
    ofBody bytes = .ok x ↔ bytes = x.body :=
  ⟨body_of_ofBody, fun same => same ▸ x.ofBody_body⟩

theorem decode_eq_ok {text : String} {x : TaggedAddress} :
    decode text = .ok x ↔ text = x.encode := by
  constructor
  · intro h
    unfold decode at h
    split at h
    · rename_i bytes opened
      obtain ⟨-, rfl⟩ := Address.sealBody_of_openBody opened
      rw [encode, ofBody_eq_ok.mp h]
    · cases h
  · rintro rfl
    exact x.decode_encode

theorem encode_inj {x y : TaggedAddress} : x.encode = y.encode ↔ x = y := by
  constructor
  · intro same
    have read := decode_eq_ok.mpr same.symm
    rw [decode_encode] at read
    exact (Except.ok.inj read).symm
  · exact congrArg encode

theorem ofClassic_eq_ok {text packed : String} {tag : Option UInt32} {network : Network} :
    ofClassic text tag network = .ok packed ↔
      ∃ x, decode packed = .ok x ∧ x.classic = text ∧ x.tag = tag ∧ x.network = network := by
  rw [ofClassic, map_eq_ok]
  constructor
  · rintro ⟨account, read, rfl⟩
    exact ⟨_, decode_encode _, (AccountId.eq_address_of_ofClassic read).symm, rfl, rfl⟩
  · rintro ⟨x, read, rfl, rfl, rfl⟩
    exact ⟨x.account, x.account.ofClassic_address, (decode_eq_ok.mp read).symm⟩

/-- An account with an optional tag and a network has exactly one text, and a text that is read is
the one of what it is read as; no tag is told from the tag zero. Packing a classic address and
unpacking it undo one another on all that either of them accepts. -/
theorem tagged_one_to_one :
    (∀ text x, decode text = .ok x ↔ text = encode x) ∧
    (∀ x, ∃! text, decode text = .ok x) ∧
    (∀ account network, encode ⟨account, some 0, network⟩ ≠ encode ⟨account, none, network⟩) ∧
    (∀ x : TaggedAddress, Kind.account.encode x.account.bytes = .ok x.classic) ∧
    (∀ text tag network packed, ofClassic text tag network = .ok packed ↔
      ∃ x, decode packed = .ok x ∧ x.classic = text ∧ x.tag = tag ∧ x.network = network) := by
  refine ⟨fun text x => decode_eq_ok, fun x => ⟨x.encode, x.decode_encode, ?_⟩,
    fun account network same => ?_, fun x => ?_,
    fun text tag network packed => ofClassic_eq_ok⟩
  · exact fun text read => decode_eq_ok.mp read
  · cases encode_inj.mp same
  · exact Address.encodeToken_eq_ok.mpr ⟨x.account.length_bytes, rfl⟩

end LedgerWire.TaggedAddress
