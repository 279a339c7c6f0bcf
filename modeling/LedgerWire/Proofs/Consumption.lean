import LedgerWire.Proofs.LeafForms
import LedgerWire.Wire.LengthPrefix

/-!
What readers take from the buffer: where one succeeds, the cursor has passed exactly the bytes that
the value is written as. Headers, length prefixes and leaves have no second spelling.
-/

namespace LedgerWire

/-- The bytes between two places of a buffer. -/
structure Passes (before : Cursor) (bytes : Bytes) (after : Cursor) : Prop where
  rest : before.rest = bytes ++ after.rest
  position : after.position = before.position + bytes.length

section Cursors
variable {before middle after : Cursor} {bytes front back : Bytes}

namespace Passes

theorem nothing (cursor : Cursor) : Passes cursor [] cursor := ⟨rfl, rfl⟩

theorem append (h : Passes before front middle) (next : Passes middle back after) :
    Passes before (front ++ back) after := by
  constructor
  · rw [h.rest, next.rest, List.append_assoc]
  · rw [next.position, h.position, List.length_append, Nat.add_assoc]

theorem length_le (h : Passes before bytes after) : after.rest.length ≤ before.rest.length := by
  rw [h.rest, List.length_append]
  omega

theorem length_lt (h : Passes before bytes after) (nonempty : bytes ≠ []) :
    after.rest.length < before.rest.length := by
  have positive := List.length_pos_iff.mpr nonempty
  rw [h.rest, List.length_append]
  omega

theorem consumed (h : Passes before bytes after) :
    before.rest.take (after.position - before.position) = bytes := by
  rw [h.rest, h.position, Nat.add_sub_cancel_left, List.take_left]

theorem reads {α : Type} {reader : Reader α} {a : α} (h : Passes before bytes after)
    (reads : Reads reader bytes a) : reader before = .ok a after := by
  have whole := reads before.position after.rest
  rwa [← h.rest, ← h.position] at whole

end Passes

theorem passes_octets {n : Nat} {octets : Octets n}
    (h : Reader.octets n before = .ok octets after) : Passes before octets.val after := by
  simp only [Reader.octets] at h
  split at h
  · rename_i length
    cases h
    exact ⟨(List.take_append_drop n before.rest).symm, by rw [length]⟩
  · cases h

theorem passes_take {n : Nat} (h : Reader.take n before = .ok bytes after) :
    Passes before bytes after ∧ bytes.length = n := by
  obtain ⟨octets, read, rfl⟩ := Reader.bind_pure_eq_ok.mp h
  exact ⟨passes_octets read, octets.property⟩

theorem passes_byte {b : UInt8} (h : Reader.byte before = .ok b after) :
    Passes before [b] after := by
  obtain ⟨position, rest⟩ := before
  cases rest with
  | nil => cases h
  | cons first rest =>
    cases h
    exact ⟨rfl, rfl⟩

theorem checkLength_bind_eq_ok {α : Type} {type : String} {n : Nat} {announced : Option Nat}
    {body : Reader α} {a : α} :
    (checkLength type n announced >>= fun _ => body) before = .ok a after ↔
      Announces announced n ∧ body before = .ok a after := by
  constructor
  · intro h
    obtain ⟨_, middle, checked, h⟩ := Reader.bind_eq_ok.mp h
    cases announced with
    | none =>
      cases checked
      exact ⟨.inl rfl, h⟩
    | some length =>
      simp only [checkLength] at checked
      split at checked
      · rename_i same
        cases checked
        exact ⟨.inr (congrArg some same), h⟩
      · cases checked
  · rintro ⟨announces, h⟩
    rw [Reader.bind_ok (checkLength_ok announces before)]
    exact h

theorem beBytes_beValue_octets {n : Nat} (octets : Octets n) :
    beBytes n (beValue octets.val) = octets.val := by
  have whole := beBytes_beValue octets.val
  rwa [octets.property] at whole

namespace FieldHeader

theorem byte_of_halves (b : UInt8) :
    b / 16 < 16 ∧ b % 16 < 16 ∧ b / 16 * 16 + b % 16 = b := by
  have bound := b.toNat_lt
  refine ⟨?_, ?_, ?_⟩
  · rw [UInt8.lt_iff_toNat_lt, UInt8.toNat_div]
    simp only [UInt8.reduceToNat]
    omega
  · rw [UInt8.lt_iff_toNat_lt, UInt8.toNat_mod]
    simp only [UInt8.reduceToNat]
    omega
  · apply UInt8.toNat_inj.mp
    simp only [UInt8.toNat_div, UInt8.toNat_mod, UInt8.toNat_add, UInt8.toNat_mul,
      UInt8.reduceToNat]
    omega

theorem passes_scanCode {refuse : UInt8 → UnknownField} {half code : UInt8}
    (h : scanCode refuse half before = .ok code after) :
    half ≠ 0 ∧ code = half ∧ after = before ∨
      half = 0 ∧ ¬ code < 16 ∧ Passes before [code] after := by
  unfold scanCode at h
  by_cases zero : half = 0
  · rw [if_neg (not_not_intro zero)] at h
    obtain ⟨b, middle, read, h⟩ := Reader.bind_eq_ok.mp h
    by_cases small : b < 16
    · rw [if_pos small] at h
      cases h
    · rw [if_neg small] at h
      cases h
      exact .inr ⟨zero, small, passes_byte read⟩
  · rw [if_pos zero] at h
    cases h
    exact .inl ⟨zero, rfl, rfl⟩

theorem passes_scan {header : FieldHeader} (h : scan before = .ok header after) :
    Passes before header.encode after := by
  obtain ⟨first, middle, first_read, h⟩ := Reader.bind_eq_ok.mp h
  obtain ⟨typeCode, middle', type_read, h⟩ := Reader.bind_eq_ok.mp h
  obtain ⟨fieldCode, field_read, rfl⟩ := Reader.bind_pure_eq_ok.mp h
  obtain ⟨high, low, whole⟩ := byte_of_halves first
  have first_passed := passes_byte first_read
  obtain ⟨-, rfl, rfl⟩ | ⟨no_type, large_type, type_passed⟩ := passes_scanCode type_read
  · obtain ⟨-, rfl, rfl⟩ | ⟨no_field, large_field, field_passed⟩ := passes_scanCode field_read
    · simpa only [encode, high, low, if_true, whole] using first_passed
    · have alone : first / 16 * 16 = first := by
        rw [no_field, UInt8.add_zero] at whole
        exact whole
      have encoded : encode ⟨first / 16, fieldCode⟩ = [first, fieldCode] := by
        simp only [encode, high, large_field, if_true, if_false, alone]
      rw [encoded]
      exact first_passed.append field_passed
  · have halved : first % 16 = first := by
      rw [no_type, UInt8.zero_mul, UInt8.zero_add] at whole
      exact whole
    obtain ⟨-, rfl, rfl⟩ | ⟨no_field, large_field, field_passed⟩ := passes_scanCode field_read
    · have encoded : encode ⟨typeCode, first % 16⟩ = [first, typeCode] := by
        simp only [encode, low, large_type, if_true, if_false]
        rw [halved]
      rw [encoded]
      exact first_passed.append type_passed
    · have encoded : encode ⟨typeCode, fieldCode⟩ = [first, typeCode, fieldCode] := by
        simp only [encode, large_type, large_field, if_false]
        rw [← halved, no_field]
      rw [encoded]
      exact (first_passed.append type_passed).append field_passed

theorem passes_read {header : FieldHeader} (h : read before = .ok header after) :
    Passes before header.encode after := by
  unfold read at h
  split at h
  · rename_i scanned
    cases h
    exact passes_scan scanned
  · cases h
  · cases h

end FieldHeader

theorem LengthPrefix.passes_read {length : Nat} (h : read before = .ok length after) :
    ∃ written, encode length = .ok written ∧ Passes before written after := by
  obtain ⟨first, middle, first_read, h⟩ := Reader.bind_eq_ok.mp h
  have bound := first.toNat_lt
  have passed := passes_byte first_read
  simp only at h
  split at h
  · rename_i one
    cases h
    refine ⟨[first], ?_, passed⟩
    rw [encode, if_pos one, UInt8.ofNat_toNat]
  split at h
  · obtain ⟨second, second_read, rfl⟩ := Reader.bind_pure_eq_ok.mp h
    have second_bound := second.toNat_lt
    refine ⟨[first, second], ?_, passed.append (passes_byte second_read)⟩
    have high : 193 + (193 + (first.toNat - 193) * 256 + second.toNat - 193) / 256 =
        first.toNat := by
      omega
    have low : (193 + (first.toNat - 193) * 256 + second.toNat - 193) % 256 = second.toNat := by
      omega
    rw [encode, if_neg (by omega), if_pos (by omega)]
    simp only [high, low, UInt8.ofNat_toNat]
  split at h
  · obtain ⟨second, middle', second_read, h⟩ := Reader.bind_eq_ok.mp h
    obtain ⟨third, last, third_read, h⟩ := Reader.bind_eq_ok.mp h
    split at h
    · rename_i bounded
      cases h
      have second_bound := second.toNat_lt
      have third_bound := third.toNat_lt
      refine ⟨[first, second, third], ?_,
        (passed.append (passes_byte second_read)).append (passes_byte third_read)⟩
      generalize whole : 12481 + (first.toNat - 241) * 65536 + second.toNat * 256 + third.toNat =
        length at *
      have high : 241 + (length - 12481) / 65536 = first.toNat := by omega
      have middle_byte : (length - 12481) / 256 % 256 = second.toNat := by omega
      have low : (length - 12481) % 256 = third.toNat := by omega
      rw [encode, if_neg (by omega), if_neg (by omega), if_pos bounded]
      simp only [high, middle_byte, low, UInt8.ofNat_toNat]
    · cases h
  · cases h

theorem Unsigned.passes_read {width : Width} {announced : Option Nat} {u : Unsigned}
    (h : read width announced before = .ok u after) : Passes before u.toBytes after := by
  obtain ⟨-, h⟩ := checkLength_bind_eq_ok.mp h
  obtain ⟨octets, read, rfl⟩ := Reader.bind_pure_eq_ok.mp h
  rw [toBytes, beBytes_beValue_octets]
  exact passes_octets read

theorem Hash.passes_read {width : HashWidth} {announced : Option Nat} {hash : Hash}
    (h : read width announced before = .ok hash after) : Passes before hash.toBytes after := by
  obtain ⟨-, h⟩ := checkLength_bind_eq_ok.mp h
  obtain ⟨octets, read, rfl⟩ := Reader.bind_pure_eq_ok.mp h
  exact passes_octets read

theorem Currency.passes_read {announced : Option Nat} {currency : Currency}
    (h : read announced before = .ok currency after) : Passes before currency.bytes after := by
  obtain ⟨-, h⟩ := checkLength_bind_eq_ok.mp h
  obtain ⟨octets, read, rfl⟩ := Reader.bind_pure_eq_ok.mp h
  exact passes_octets read

theorem Blob.passes_read {length : Nat} {blob : Blob}
    (h : read (some length) before = .ok blob after) :
    Passes before blob.bytes after ∧ length = blob.bytes.length := by
  obtain ⟨remaining, middle, looked, h⟩ := Reader.bind_eq_ok.mp h
  cases looked
  obtain ⟨bytes, taken, rfl⟩ := Reader.bind_pure_eq_ok.mp h
  exact (passes_take taken).imp_right Eq.symm

theorem AccountId.passes_read {announced : Option Nat} {account : AccountId}
    (h : read announced before = .ok account after) :
    announced = some 0 ∧ account = .zero ∧ after = before ∨
      Announces announced 20 ∧ Passes before account.bytes after := by
  unfold read at h
  split at h
  · rename_i nothing
    cases h
    exact .inl ⟨nothing, rfl, rfl⟩
  · obtain ⟨announces, h⟩ := checkLength_bind_eq_ok.mp h
    obtain ⟨octets, read, rfl⟩ := Reader.bind_pure_eq_ok.mp h
    exact .inr ⟨announces, passes_octets read⟩

namespace HashList

theorem passes_readHashes {count : Nat} {hashes : List (Octets 32)}
    (h : readHashes count before = .ok hashes after) :
    Passes before (hashes.flatMap (·.val)) after ∧ hashes.length = count := by
  induction count generalizing before hashes with
  | zero =>
    cases h
    exact ⟨.nothing _, rfl⟩
  | succ count ih =>
    obtain ⟨hash, middle, read, h⟩ := Reader.bind_eq_ok.mp h
    obtain ⟨hashes, rest_read, rfl⟩ := Reader.bind_pure_eq_ok.mp h
    obtain ⟨passed, length⟩ := ih rest_read
    exact ⟨(passes_octets read).append passed, congrArg Nat.succ length⟩

theorem passes_read {length : Nat} {list : HashList}
    (h : read (some length) before = .ok list after) :
    Passes before list.toBytes after ∧ length = list.toBytes.length := by
  obtain ⟨remaining, middle, looked, h⟩ := Reader.bind_eq_ok.mp h
  cases looked
  simp only [Option.getD_some] at h
  split at h
  · cases h
  rename_i whole
  obtain ⟨bytes, last, taken, h⟩ := Reader.bind_eq_ok.mp h
  obtain ⟨passed, bytes_length⟩ := passes_take taken
  unfold Reader.runOn at h
  split at h
  · rename_i hashes left read
    cases h
    obtain ⟨passed_hashes, count⟩ := passes_readHashes read
    have parts : bytes = hashes.flatMap (·.val) ++ left.rest := passed_hashes.rest
    -- The length is a multiple of 32, so that nothing is left.
    have all : bytes.length = (hashes.flatMap (·.val)).length := by
      rw [length_flatMap]
      omega
    have nothing : left.rest = [] := by
      rw [parts, List.length_append] at all
      exact List.length_eq_zero_iff.mp (by omega)
    rw [nothing, List.append_nil] at parts
    rw [toBytes, ← parts]
    exact ⟨passed, bytes_length.symm⟩
  · cases h

end HashList

theorem Quantity.passes_read {announced : Option Nat} {q : Quantity}
    (h : read announced before = .ok q after) : Passes before q.toBytes after := by
  obtain ⟨-, h⟩ := checkLength_bind_eq_ok.mp h
  obtain ⟨octets, read, rfl⟩ := Reader.bind_pure_eq_ok.mp h
  have front_length : (octets.val.take 8).length = 8 := by simp [octets.property]
  have back_length : (octets.val.drop 8).length = 4 := by simp [octets.property]
  have front_bound := beValue_lt (octets.val.take 8)
  have back_bound := beValue_lt (octets.val.drop 8)
  rw [front_length] at front_bound
  rw [back_length] at back_bound
  have front_bytes := beBytes_beValue (octets.val.take 8)
  have back_bytes := beBytes_beValue (octets.val.drop 8)
  rw [front_length] at front_bytes
  rw [back_length] at back_bytes
  have whole : toBytes ⟨(UInt64.ofNat (beValue (octets.val.take 8))).toInt64,
      (UInt32.ofNat (beValue (octets.val.drop 8))).toInt32⟩ = octets.val := by
    have mantissa : (UInt64.ofNat (beValue (octets.val.take 8))).toNat =
        beValue (octets.val.take 8) := UInt64.toNat_ofNat_of_lt' front_bound
    have exponent : (UInt32.ofNat (beValue (octets.val.drop 8))).toNat =
        beValue (octets.val.drop 8) := UInt32.toNat_ofNat_of_lt' back_bound
    rw [toBytes, UInt64.toUInt64_toInt64, UInt32.toUInt32_toInt32, mantissa, exponent, front_bytes,
      back_bytes, List.take_append_drop]
  rw [whole]
  exact passes_octets read

theorem Asset.passes_readAny {asset : Asset} (h : readAny before = .ok asset after) :
    Passes before asset.toBytes after := by
  obtain ⟨first, middle, first_read, h⟩ := Reader.bind_eq_ok.mp h
  have first_passed := passes_octets first_read
  split at h
  · rename_i zero
    cases h
    rw [Octets.eq_zero_of_isZero zero] at first_passed
    exact first_passed
  · obtain ⟨second, middle', second_read, h⟩ := Reader.bind_eq_ok.mp h
    have second_passed := passes_octets second_read
    split at h
    · rename_i reserved_account
      obtain ⟨sequence, sequence_read, rfl⟩ := Reader.bind_pure_eq_ok.mp h
      have sequence_bytes : sequence.reverse.val.reverse = sequence.val :=
        List.reverse_reverse sequence.val
      rw [reserved_account] at second_passed
      rw [toBytes, sequence_bytes]
      exact (first_passed.append second_passed).append (passes_octets sequence_read)
    · cases h
      exact first_passed.append second_passed

theorem Asset.passes_read {announced : Option Nat} {asset : Asset}
    (h : read announced before = .ok asset after) : Passes before asset.toBytes after := by
  obtain ⟨asset, middle, first, h⟩ := Reader.bind_eq_ok.mp h
  obtain ⟨-, h⟩ := checkLength_bind_eq_ok.mp h
  cases h
  exact passes_readAny first

namespace Bridge

theorem passes_readDoor {door : AccountId} (h : readDoor before = .ok door after) :
    Passes before (doorLength :: door.bytes) after := by
  obtain ⟨length, middle, length_read, h⟩ := Reader.bind_eq_ok.mp h
  split at h
  · cases h
  · rename_i same
    obtain ⟨octets, read, rfl⟩ := Reader.bind_pure_eq_ok.mp h
    rw [← not_not.mp same]
    exact (passes_byte length_read).append (passes_octets read)

theorem passes_read {bridge : Bridge} (h : read before = .ok bridge after) :
    Passes before bridge.toBytes after := by
  obtain ⟨lockingDoor, middle, locking_door, h⟩ := Reader.bind_eq_ok.mp h
  obtain ⟨lockingAsset, middle, locking_asset, h⟩ := Reader.bind_eq_ok.mp h
  obtain ⟨issuingDoor, middle, issuing_door, h⟩ := Reader.bind_eq_ok.mp h
  obtain ⟨issuingAsset, issuing_asset, rfl⟩ := Reader.bind_pure_eq_ok.mp h
  exact (((passes_readDoor locking_door).append (Asset.passes_readAny locking_asset)).append
    (passes_readDoor issuing_door)).append (Asset.passes_readAny issuing_asset)

end Bridge

namespace PathStep

theorem passes_readIf {α : Type} {present : Bool} {wrap : Octets 20 → α} (bytes : α → Bytes)
    (same : ∀ octets, bytes (wrap octets) = octets.val) {part : Option α}
    (h : readIf present wrap before = .ok part after) :
    Passes before ((part.map bytes).getD []) after := by
  cases present with
  | false =>
    cases h
    exact .nothing before
  | true =>
    obtain ⟨octets, read, rfl⟩ := Reader.bind_pure_eq_ok.mp h
    simp only [Option.map_some, Option.getD_some, same]
    exact passes_octets read

theorem passes_read {kind : UInt8} {step : PathStep} (h : read kind before = .ok step after) :
    ∃ bytes, Passes before bytes after ∧ step.toBytes = kind :: bytes := by
  have same_kind := kind_of_read h
  unfold read at h
  split at h
  · cases h
  obtain ⟨account, middle, account_read, h⟩ := Reader.bind_eq_ok.mp h
  obtain ⟨currency, middle, currency_read, h⟩ := Reader.bind_eq_ok.mp h
  obtain ⟨issuer, issuer_read, rfl⟩ := Reader.bind_pure_eq_ok.mp h
  have account_passed := passes_readIf AccountId.bytes (fun _ => rfl) account_read
  have currency_passed := passes_readIf Currency.bytes (fun _ => rfl) currency_read
  have issuer_passed := passes_readIf AccountId.bytes (fun _ => rfl) issuer_read
  exact ⟨_, (account_passed.append currency_passed).append issuer_passed,
    by rw [toBytes, same_kind]⟩

end PathStep

namespace PathSet

def openBytes (paths : List (List PathStep)) (path : List PathStep) : Bytes :=
  paths.flatMap (fun path => path.flatMap PathStep.toBytes ++ [separator]) ++
    path.flatMap PathStep.toBytes

theorem toBytes_append_singleton (paths : List (List PathStep)) (path : List PathStep) :
    toBytes ⟨paths ++ [path]⟩ = openBytes paths path ++ [terminator] := by
  induction paths with
  | nil => exact toBytes_single path
  | cons first paths ih =>
    obtain ⟨next, others, shape⟩ : ∃ next others, paths ++ [path] = next :: others :=
      List.exists_cons_of_ne_nil (by simp)
    rw [List.cons_append, shape, toBytes_cons, ← shape, ih]
    simp [openBytes]

theorem passes_readPaths {rounds : Nat} {paths result : List (List PathStep)}
    {path : List PathStep} (h : readPaths rounds paths path before = .ok result after) :
    ∃ bytes, Passes before bytes after ∧ toBytes ⟨result⟩ = openBytes paths path ++ bytes := by
  induction rounds generalizing before paths path with
  | zero => cases h
  | succ rounds ih =>
    cases readPaths_eq_ok.mp h with
    | nothing kind_read => exact ⟨_, passes_byte kind_read, rfl⟩
    | last kind_read => exact ⟨_, passes_byte kind_read, toBytes_append_singleton paths path⟩
    | separates kind_read _ rest_read =>
      obtain ⟨bytes, rest_passed, whole⟩ := ih rest_read
      refine ⟨_, (passes_byte kind_read).append rest_passed, ?_⟩
      rw [whole]
      simp [openBytes]
    | step kind_read _ _ step_read rest_read =>
      obtain ⟨step_bytes, step_passed, step_whole⟩ := PathStep.passes_read step_read
      obtain ⟨bytes, rest_passed, whole⟩ := ih rest_read
      refine ⟨_, (passes_byte kind_read).append (step_passed.append rest_passed), ?_⟩
      rw [whole, List.singleton_append, ← List.cons_append, ← step_whole]
      simp [openBytes]

theorem passes_read {set : PathSet} (h : read before = .ok set after) :
    Passes before set.toBytes after := by
  obtain ⟨rounds, middle, looked, h⟩ := Reader.bind_eq_ok.mp h
  cases looked
  obtain ⟨paths, paths_read, rfl⟩ := Reader.bind_pure_eq_ok.mp h
  obtain ⟨bytes, passed, whole⟩ := passes_readPaths paths_read
  rw [whole]
  exact passed

end PathSet

namespace Amount

theorem word_nativeOfWord {word : Nat} (bound : word < 9223372036854775808) :
    (nativeOfWord word).word = word := by
  have drops : (BitVec.ofNat 62 word).toNat = word % 4611686018427387904 := BitVec.toNat_ofNat ..
  rw [nativeOfWord, Amount.word, drops, signBit, positiveBit]
  by_cases positive : word / 4611686018427387904 % 2 = 1
  · rw [if_pos (by simpa using positive)]
    omega
  · rw [if_neg (by simpa using positive)]
    omega

theorem word_issuedOfWord {word : Nat} (lower : 9223372036854775808 ≤ word)
    (bound : word < 18446744073709551616) (currency : Currency) (issuer : AccountId) :
    (issuedOfWord word currency issuer).word = word := by
  have mantissa : (BitVec.ofNat 54 word).toNat = word % 18014398509481984 := BitVec.toNat_ofNat ..
  have biased : (UInt8.ofNat (word / 18014398509481984)).toNat = word / 18014398509481984 % 256 :=
    UInt8.toNat_ofNat'
  rw [issuedOfWord, Amount.word, exponentUnit, mantissa, biased, signBit, positiveBit, issuedBit]
  by_cases positive : word / 4611686018427387904 % 2 = 1
  · rw [if_pos (by simpa using positive)]
    omega
  · rw [if_neg (by simpa using positive)]
    omega

theorem lt_of_peek {first : UInt8} (looked : Reader.peek before = .ok first before)
    (octets : Octets 8) {rest : Bytes} (shape : before.rest = octets.val ++ rest) :
    first < 128 ↔ beValue octets.val < 9223372036854775808 := by
  have bound := beValue_lt octets.val
  rw [octets.property] at bound
  obtain ⟨front, back, bytes, low⟩ := first_byte bound
  rw [beBytes_beValue_octets] at bytes
  rw [bytes, List.cons_append] at shape
  obtain ⟨position, all⟩ := before
  cases shape
  cases looked
  exact low

theorem passes_readIssued {first : UInt8} (looked : Reader.peek before = .ok first before)
    (large : ¬ first < 128) {amount : Amount} (h : readIssued before = .ok amount after) :
    Passes before amount.toBytes after := by
  obtain ⟨octets, middle, read, h⟩ := Reader.bind_eq_ok.mp h
  have passed := passes_octets read
  split at h
  · cases h
    have length : (octets.val.take 8).length = 8 := by simp [octets.property]
    have bound := beValue_lt (octets.val.take 8)
    rw [length] at bound
    have lower : 9223372036854775808 ≤ beValue (octets.val.take 8) := by
      refine Nat.le_of_not_lt fun small => large ?_
      have shape : before.rest = octets.val.take 8 ++ (octets.val.drop 8 ++ after.rest) := by
        rw [← List.append_assoc, List.take_append_drop]
        exact passed.rest
      exact (lt_of_peek looked ⟨octets.val.take 8, length⟩ shape).mpr small
    have word_bytes := beBytes_beValue (octets.val.take 8)
    rw [length] at word_bytes
    have back : (octets.val.drop 8).take 20 ++ octets.val.drop 28 = octets.val.drop 8 := by
      rw [show 28 = 8 + 20 from rfl, ← List.drop_drop, List.take_append_drop]
    have whole (currency : Currency) (issuer : AccountId)
        (parts : currency.bytes ++ issuer.bytes = octets.val.drop 8) :
        (issuedOfWord (beValue (octets.val.take 8)) currency issuer).toBytes = octets.val := by
      have word := word_issuedOfWord lower bound currency issuer
      rw [issuedOfWord] at word ⊢
      rw [toBytes, word, word_bytes, List.append_assoc, parts, List.take_append_drop]
    rw [whole ⟨(octets.val.drop 8).take 20, by simp [octets.property]⟩
      ⟨octets.val.drop 28, by simp [octets.property]⟩ back]
    exact passed
  · cases h

theorem passes_read {announced : Option Nat} {amount : Amount}
    (h : read announced before = .ok amount after) : Passes before amount.toBytes after := by
  obtain ⟨first, middle, looked, h⟩ := Reader.bind_eq_ok.mp h
  obtain rfl : before = middle := by
    obtain ⟨position, rest⟩ := before
    cases rest <;> cases looked
    rfl
  split at h
  · rename_i small
    obtain ⟨-, h⟩ := checkLength_bind_eq_ok.mp h
    obtain ⟨word, word_read, rfl⟩ := Reader.bind_pure_eq_ok.mp h
    obtain ⟨octets, read, rfl⟩ := Reader.bind_pure_eq_ok.mp word_read
    have passed := passes_octets read
    have bytes : (nativeOfWord (beValue octets.val)).toBytes = octets.val := by
      have word := word_nativeOfWord ((lt_of_peek looked octets passed.rest).mp small)
      rw [nativeOfWord] at word ⊢
      rw [toBytes, word, beBytes_beValue_octets]
    rw [bytes]
    exact passed
  · rename_i large
    obtain ⟨-, h⟩ := checkLength_bind_eq_ok.mp h
    exact passes_readIssued looked large h

end Amount

/-- A leaf takes its bytes, with the length that was announced for them. Only an account may be
announced with no length, and takes nothing then. -/
theorem Leaf.passes_read {type : LeafType} {announced : Option Nat} {leaf : Leaf}
    (lengthened : announced.isSome = (WireType.leaf type).prefixed)
    (h : read type announced before = .ok leaf after) :
    announced = some 0 ∧ leaf = .account .zero ∧ after = before ∨
      leaf.Prefixed announced ∧ Passes before leaf.toBytes after := by
  have plain (same : leaf.type = type) (unprefixed : (WireType.leaf type).prefixed = false) :
      leaf.Prefixed announced := by
    rw [unprefixed, Option.isSome_eq_false_iff, Option.isNone_iff_eq_none] at lengthened
    exact .inr ⟨lengthened, by rw [same, unprefixed]⟩
  have same := (canonical_of_read h).2
  cases type with
  | blob =>
    obtain ⟨length, rfl⟩ := Option.isSome_iff_exists.mp lengthened
    obtain ⟨value, read, rfl⟩ := Reader.bind_pure_eq_ok.mp h
    obtain ⟨passed, rfl⟩ := Blob.passes_read read
    exact .inr ⟨.inl rfl, passed⟩
  | hashes =>
    obtain ⟨length, rfl⟩ := Option.isSome_iff_exists.mp lengthened
    obtain ⟨value, read, rfl⟩ := Reader.bind_pure_eq_ok.mp h
    obtain ⟨passed, rfl⟩ := HashList.passes_read read
    exact .inr ⟨.inl rfl, passed⟩
  | account =>
    obtain ⟨length, rfl⟩ := Option.isSome_iff_exists.mp lengthened
    obtain ⟨value, read, rfl⟩ := Reader.bind_pure_eq_ok.mp h
    obtain ⟨none, rfl, rfl⟩ | ⟨announces, passed⟩ := AccountId.passes_read read
    · exact .inl ⟨none, rfl, rfl⟩
    · refine .inr ⟨.inl ?_, passed⟩
      rw [toBytes, AccountId.length_bytes]
      exact announces.resolve_left (Option.some_ne_none length)
  | unsigned width =>
    obtain ⟨value, read, rfl⟩ := Reader.bind_pure_eq_ok.mp h
    exact .inr ⟨plain same rfl, Unsigned.passes_read read⟩
  | hash width =>
    obtain ⟨value, read, rfl⟩ := Reader.bind_pure_eq_ok.mp h
    exact .inr ⟨plain same rfl, Hash.passes_read read⟩
  | currency =>
    obtain ⟨value, read, rfl⟩ := Reader.bind_pure_eq_ok.mp h
    exact .inr ⟨plain same rfl, Currency.passes_read read⟩
  | amount =>
    obtain ⟨value, read, rfl⟩ := Reader.bind_pure_eq_ok.mp h
    exact .inr ⟨plain same rfl, Amount.passes_read read⟩
  | asset =>
    obtain ⟨value, read, rfl⟩ := Reader.bind_pure_eq_ok.mp h
    exact .inr ⟨plain same rfl, Asset.passes_read read⟩
  | number =>
    obtain ⟨value, read, rfl⟩ := Reader.bind_pure_eq_ok.mp h
    exact .inr ⟨plain same rfl, Quantity.passes_read read⟩
  | paths =>
    obtain ⟨value, read, rfl⟩ := Reader.bind_pure_eq_ok.mp h
    exact .inr ⟨plain same rfl, PathSet.passes_read read⟩
  | bridge =>
    obtain ⟨value, read, rfl⟩ := Reader.bind_pure_eq_ok.mp h
    exact .inr ⟨plain same rfl, Bridge.passes_read read⟩

end Cursors
end LedgerWire
