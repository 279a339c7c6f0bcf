import LedgerWire.Proofs.LeafReading
import LedgerWire.Proofs.RenderedDecimals

namespace LedgerWire

theorem hexBytes_eq_ok {type text : String} {bytes : Bytes} :
    hexBytes type text = .ok bytes ↔ Hex.decode text = .ok bytes := by
  unfold hexBytes
  cases Hex.decode text <;> simp

theorem exactly_eq_ok {type : String} {n : Nat} {bytes : Bytes} {octets : Octets n} :
    exactly type n bytes = .ok octets ↔ bytes = octets.val := by
  unfold exactly Octets.ofBytes?
  by_cases length : bytes.length = n
  · rw [dif_pos length]
    exact ⟨fun h => by cases h; rfl, fun same => congrArg Except.ok (Subtype.ext same)⟩
  · rw [dif_neg length]
    exact ⟨nofun, fun same => absurd (same ▸ octets.property) length⟩

theorem hexBytes_encode (type : String) (bytes : Bytes) :
    hexBytes type (Hex.encode bytes) = .ok bytes :=
  hexBytes_eq_ok.mpr (Hex.decode_encode bytes)

theorem exactly_val (type : String) {n : Nat} (octets : Octets n) :
    exactly type n octets.val = .ok octets :=
  exactly_eq_ok.mpr rfl

theorem Octets.eq_zero_of_isZero {n : Nat} {octets : Octets n} (h : octets.isZero = true) :
    octets = Octets.zero n := by
  apply Subtype.ext
  rw [Octets.zero, List.eq_replicate_iff]
  refine ⟨octets.property, fun b member => ?_⟩
  simpa using List.all_eq_true.mp h b member

theorem Hex.length_encode (bytes : Bytes) : (encode bytes).length = 2 * bytes.length := by
  rw [encode, ← String.length_toList, String.toList_ofList, length_encodeBytes]

theorem Hex.digitValue?_digit {n : Nat} (h : n < 16) : digitValue? (digit n).toNat = some n := by
  have all : ∀ n : Fin 16, digitValue? (digit n.val).toNat = some n.val := by decide
  exact all ⟨n, h⟩

theorem Hex.digitValues_encode (bytes : Bytes) :
    (bytes.flatMap encodeByte).mapM (fun c => digitValue? c.toNat) =
      some (bytes.flatMap fun b => [b.toNat / 16, b.toNat % 16]) := by
  induction bytes with
  | nil => rfl
  | cons b bytes ih =>
    have bound := b.toNat_lt
    simp only [List.flatMap_cons, encodeByte, List.cons_append, List.nil_append, List.mapM_cons,
      digitValue?_digit (show b.toNat / 16 < 16 by omega),
      digitValue?_digit (show b.toNat % 16 < 16 by omega), ih]
    rfl

theorem Hex.foldl_halves (n : Nat) (bytes : Bytes) :
    (bytes.flatMap fun b => [b.toNat / 16, b.toNat % 16]).foldl (fun n d => n * 16 + d) n =
      bytes.foldl (fun n b => n * 256 + b.toNat) n := by
  induction bytes generalizing n with
  | nil => rfl
  | cons b bytes ih =>
    have step : (n * 16 + b.toNat / 16) * 16 + b.toNat % 16 = n * 256 + b.toNat := by omega
    simp only [List.flatMap_cons, List.cons_append, List.nil_append, List.foldl_cons, step]
    exact ih _

theorem Hex.natOfDigits?_encode (bytes : Bytes) :
    natOfDigits? (bytes.flatMap encodeByte) = some (beValue bytes) := by
  rw [natOfDigits?, digitValues_encode]
  exact congrArg some (foldl_halves 0 bytes)

namespace Unsigned

theorem ofNat_value (u : Unsigned) : ofNat u.width u.value = .ok u := by
  rw [ofNat, dif_pos u.fits]

theorem ofJson_toJson (u : Unsigned) : ofJson u.width u.toJson = .ok u := by
  obtain ⟨width, value, fits⟩ := u
  cases width with
  | eight =>
    have read : Hex.natOfDigits? (Hex.encode (beBytes 8 value)).toList = some value := by
      rw [Hex.encode, String.toList_ofList, Hex.natOfDigits?_encode, beValue_beBytes]
      exact congrArg some (Nat.mod_eq_of_lt fits)
    have length : (Hex.encode (beBytes 8 value)).toList.length = 16 := by
      rw [String.length_toList, Hex.length_encode, length_beBytes]
    change ofHex (Hex.encode (beBytes 8 value)) = _
    simp only [ofHex, read, length]
    rw [if_pos (by decide)]
    exact ofNat_value ⟨.eight, value, fits⟩
  | one => exact ofNat_value ⟨.one, value, fits⟩
  | two => exact ofNat_value ⟨.two, value, fits⟩
  | four => exact ofNat_value ⟨.four, value, fits⟩

theorem ofDecimalJson_toString {u : Unsigned} (h : u.width = .eight) :
    ofDecimalJson (.string (toString u.value)) = .ok u := by
  obtain ⟨width, value, fits⟩ := u
  subst h
  have bound : value < capacity 8 := fits
  simp only [ofDecimalJson, ofDigits, Decimal.toList_toString, Text.isDigits_toDigits,
    Text.natOfDigits_toDigits, bound, if_true]
  exact ofNat_value ⟨.eight, value, fits⟩

end Unsigned

theorem Hash.ofJson_toJson (hash : Hash) : ofJson hash.width hash.toJson = .ok hash := by
  rw [toJson]
  split
  · rename_i empty
    obtain ⟨width, zero⟩ := empty
    have made : ofJson hash.width (.string "") = .ok (Hash.zero hash.width) := by
      rw [width]
      rfl
    have same : Hash.zero hash.width = hash := by
      have octets := Octets.eq_zero_of_isZero zero
      rw [Hash.zero, ← octets]
    rw [made, same]
  · have filled : Hex.encode hash.toBytes ≠ "" := by
      intro empty
      have length := Hex.length_encode hash.toBytes
      have octets := hash.octets.property
      rw [empty, toBytes, octets] at length
      revert length
      cases hash.width <;> decide
    simp only [ofJson, Json.text, ofBytes, toBytes, bind, Except.bind, hexBytes_encode, exactly_val]
    rw [if_neg fun h => filled h.2]
    rfl

theorem HashList.ofJson_toJson (list : HashList) : ofJson list.toJson = .ok list := by
  have item (hash : Octets 32) : ofItem (.string (Hex.encode hash.val)) = .ok hash := by
    simp only [ofItem, Json.text, bind, Except.bind, hexBytes_encode, exactly_val]
  have each : (list.hashes.map fun hash => Json.string (Hex.encode hash.val)).mapM ofItem =
      .ok list.hashes :=
    mapM_map_ok fun hash _ => item hash
  rw [toJson, ofJson, each]
  rfl

theorem Blob.ofJson_toJson (blob : Blob) : ofJson blob.toJson = .ok blob := by
  simp only [ofJson, toJson, Json.text, bind, Except.bind, hexBytes_encode]
  rfl

theorem AccountId.ofJson_toJson (account : AccountId) : ofJson account.toJson = .ok account :=
  account.ofText_address

theorem Hex.length_utf8_encode (bytes : Bytes) :
    (Text.utf8 (encode bytes)).length = 2 * bytes.length := by
  have ascii : ∀ c ∈ bytes.flatMap encodeByte, c.toNat < 128 := by
    intro c member
    obtain ⟨b, -, inside⟩ := List.mem_flatMap.mp member
    exact encodeByte_ascii inside
  rw [encode, Text.utf8_of_ascii ascii, List.length_map, length_encodeBytes]

namespace Currency

theorem ofCode_bytes {currency : Currency} {x y z : UInt8}
    (code : (currency.bytes.drop 12).take 3 = [x, y, z])
    (front : (currency.bytes.take 12).all (· == 0) = true)
    (back : (currency.bytes.drop 15).all (· == 0) = true) :
    ofCode (Char.ofNat x.toNat) (Char.ofNat y.toNat) (Char.ofNat z.toNat) = currency := by
  have letter (b : UInt8) : UInt8.ofNat (Char.ofNat b.toNat).toNat = b := by
    have all : ∀ n : Fin 256, (Char.ofNat n.val).toNat = n.val := by decide +kernel
    rw [all ⟨b.toNat, b.toNat_lt⟩, UInt8.ofNat_toNat]
  have zeros {bytes : Bytes} {n : Nat} (length : bytes.length = n)
      (zero : bytes.all (· == 0) = true) : List.replicate n 0 = bytes := by
    refine (List.eq_replicate_iff.mpr ⟨length, fun b member => ?_⟩).symm
    simpa using List.all_eq_true.mp zero b member
  have first : List.replicate 12 0 = currency.bytes.take 12 := zeros (by simp) front
  have last : List.replicate 5 0 = currency.bytes.drop 15 := zeros (by simp) back
  have whole : currency.bytes.take 12 ++ (currency.bytes.drop 12).take 3 ++
      currency.bytes.drop 15 = currency.bytes := by
    rw [List.append_assoc, show currency.bytes.drop 15 = (currency.bytes.drop 12).drop 3 by
      rw [List.drop_drop], List.take_append_drop, List.take_append_drop]
  obtain ⟨octets⟩ := currency
  refine congrArg Currency.mk (Subtype.ext ?_)
  simp only [List.map_cons, List.map_nil, letter]
  rw [first, last, ← code]
  exact whole

theorem ofText_code {currency : Currency} {code : String} (h : currency.code? = some code) :
    ofText code = .ok currency := by
  simp only [code?] at h
  split at h
  · rename_i shape
    cases h
    simp only [Bool.and_eq_true, bne_iff_ne, ne_eq] at shape
    obtain ⟨⟨⟨front, back⟩, letters⟩, other⟩ := shape
    have three : ((currency.bytes.drop 12).take 3).length = 3 := by simp
    obtain ⟨x, y, z, parts⟩ := List.length_eq_three.mp three
    rw [parts] at letters other ⊢
    simp only [List.map_cons, List.map_nil] at letters other ⊢
    simp only [ofText, if_neg other, String.toList_ofList, letters, if_true]
    rw [ofCode_bytes parts front back]
  · cases h

theorem ofText_text (currency : Currency) : ofText currency.text = .ok currency := by
  rw [text]
  split
  · rename_i code coded
    exact ofText_code coded
  split
  · rename_i zero
    have same : currency = native := congrArg Currency.mk (Octets.eq_zero_of_isZero zero)
    rw [ofText, if_pos rfl, same]
  · have length : (Hex.encode currency.bytes).toList.length = 40 := by
      rw [String.length_toList, Hex.length_encode, length_bytes]
    have long : (Text.utf8 (Hex.encode currency.bytes)).length = 40 := by
      rw [Hex.length_utf8_encode, length_bytes]
    have read : ofHex (Hex.encode currency.bytes) = .ok currency := by
      rw [ofHex, if_pos long, hexBytes_encode]
      change (do return (Currency.mk (← exactly typeName 20 currency.octets.val))) = _
      rw [exactly_val]
      rfl
    have other : Hex.encode currency.bytes ≠ nativeName := by
      intro same
      rw [same] at length
      revert length
      decide
    rw [ofText, if_neg other]
    split
    · rename_i short
      rw [short] at length
      cases length
    · exact read

theorem ofJson_toJson (currency : Currency) : ofJson currency.toJson = .ok currency :=
  currency.ofText_text

end Currency

namespace PathStep

theorem member_map {α : Type} {name : String} {read : Json → Except Error α} {write : α → Json}
    {json : Json} {part : Option α} (found : json.get? name = part.map write)
    (again : ∀ a, read (write a) = .ok a) : member name read json = .ok part := by
  rw [member, found]
  cases part with
  | none => rfl
  | some a =>
    simp only [Option.map_some, again]
    rfl

theorem ofJson_toJson {step : PathStep} (h : step.kind ≠ 0) : ofJson step.toJson = .ok step := by
  have account : step.toJson.get? "account" = step.account.map AccountId.toJson := by
    rcases step with ⟨_ | _, _ | _, _ | _⟩ <;> simp [toJson, Json.get?]
  have currency : step.toJson.get? "currency" = step.currency.map Currency.toJson := by
    rcases step with ⟨_ | _, _ | _, _ | _⟩ <;> simp [toJson, Json.get?, List.lookup_cons]
  have issuer : step.toJson.get? "issuer" = step.issuer.map AccountId.toJson := by
    rcases step with ⟨_ | _, _ | _, _ | _⟩ <;> simp [toJson, Json.get?, List.lookup_cons]
  have account_read := member_map account AccountId.ofJson_toJson
  have currency_read := member_map currency Currency.ofJson_toJson
  have issuer_read := member_map issuer AccountId.ofJson_toJson
  rw [toJson] at account_read currency_read issuer_read ⊢
  simp only [ofJson, account_read, currency_read, issuer_read, bind, Except.bind]
  rw [if_neg h]
  rfl

end PathStep

theorem PathSet.ofJson_toJson {set : PathSet} (h : set.Canonical) :
    ofJson set.toJson = .ok set := by
  have path (steps : List PathStep) (filled : ∀ step ∈ steps, step.kind ≠ 0) :
      pathOfJson (.array (steps.map PathStep.toJson)) = .ok steps :=
    mapM_map_ok fun step member => PathStep.ofJson_toJson (filled step member)
  have each : (set.paths.map fun path => Json.array (path.map PathStep.toJson)).mapM pathOfJson =
      .ok set.paths :=
    mapM_map_ok fun steps member => path steps (h steps member).2
  have filled : set.paths.any List.isEmpty = false := by
    rw [List.any_eq_false]
    intro steps member
    simpa using (h steps member).1
  simp only [toJson, ofJson, each, bind, Except.bind, filled]
  rfl

namespace Asset

/-- An asset that JSON can name: the native one has no issuer. -/
def Nameable : Asset → Prop
  | .issued currency _ => currency.isNative = false
  | _ => True

theorem Canonical.nameable {asset : Asset} (h : asset.Canonical) : asset.Nameable := by
  cases asset with
  | issued => exact h.1
  | _ => trivial

theorem ofJson_toJson {asset : Asset} (h : asset.Nameable) : ofJson asset.toJson = .ok asset := by
  cases asset with
  | native => rfl
  | issued currency issuer =>
    have foreign : currency.isNative = false := h
    have no_token : (toJson (.issued currency issuer)).get? "mpt_issuance_id" = none := by
      simp [toJson, Json.get?, List.lookup_cons]
    have code : (toJson (.issued currency issuer)).get? "currency" = some currency.toJson := by
      simp [toJson, Json.get?]
    have owner : (toJson (.issued currency issuer)).get? "issuer" = some issuer.toJson := by
      simp [toJson, Json.get?, List.lookup_cons]
    rw [toJson] at no_token code owner ⊢
    simp only [ofJson, no_token, code, owner, Currency.ofJson_toJson, bind, Except.bind, ofCurrency,
      foreign, AccountId.ofJson_toJson]
    rfl
  | token issuer sequence =>
    have id : (toJson (.token issuer sequence)).get? "mpt_issuance_id" =
        some (.string (Hex.encode (sequence.val ++ issuer.bytes))) := by
      simp [toJson, Json.get?]
    have length : (sequence.val ++ issuer.bytes).length = 24 := by
      rw [List.length_append, sequence.property, issuer.length_bytes]
    have exact_id : exactly typeName 24 (sequence.val ++ issuer.bytes) =
        .ok ⟨sequence.val ++ issuer.bytes, length⟩ := exactly_val typeName ⟨_, length⟩
    rw [toJson] at id ⊢
    simp only [ofJson, id, Json.text, ofTokenId, hexBytes_encode, exact_id, bind, Except.bind,
      List.take_left' sequence.property, List.drop_left' sequence.property]
    rfl

end Asset

namespace Bridge

theorem splitDoor?_append (door : AccountId) (rest : Bytes) :
    splitDoor? (doorLength :: (door.bytes ++ rest)) = some (door, rest) := by
  have taken : ((doorLength :: (door.bytes ++ rest)).drop 1).take 20 = door.bytes := by
    rw [List.drop_succ_cons, List.drop_zero, List.take_left' door.length_bytes]
  have dropped : (doorLength :: (door.bytes ++ rest)).drop 21 = rest := by
    rw [List.drop_succ_cons, List.drop_left' door.length_bytes]
  rw [splitDoor?, taken, dropped, Octets.ofBytes?, dif_pos door.length_bytes]
  rfl

theorem ofBytes?_take {n : Nat} (octets : Octets n) (rest : Bytes) :
    Octets.ofBytes? n ((octets.val ++ rest).take n) = some octets := by
  rw [List.take_left' octets.property, Octets.ofBytes?, dif_pos octets.property]

theorem drop_append {n : Nat} (octets : Octets n) (rest : Bytes) :
    (octets.val ++ rest).drop n = rest :=
  List.drop_left' octets.property

theorem splitAsset?_issued {currency : Currency} {issuer : AccountId} {rest : Bytes}
    (foreign : currency.isNative = false) (apart : issuer = Asset.reserved → rest.length < 4) :
    splitAsset? ((Asset.issued currency issuer).toBytes ++ rest) =
      some (.issued currency issuer, rest) := by
  have shape : (Asset.issued currency issuer).toBytes ++ rest =
      currency.octets.val ++ (issuer.octets.val ++ rest) :=
    List.append_assoc ..
  have first := ofBytes?_take currency.octets (issuer.octets.val ++ rest)
  have after := drop_append currency.octets (issuer.octets.val ++ rest)
  have second := ofBytes?_take issuer.octets rest
  have end_of : (currency.octets.val ++ (issuer.octets.val ++ rest)).drop 40 = rest := by
    rw [show 40 = 20 + 20 from rfl, ← List.drop_drop, after, drop_append]
  have nonzero : currency.octets.isZero = false := foreign
  rw [shape]
  simp only [splitAsset?, first, after, second, end_of, nonzero, bind, Option.bind]
  rw [if_neg nofun]
  split
  · rename_i tail
    have unreserved : issuer.octets ≠ Asset.reserved.octets := by
      intro same
      have short := apart (congrArg AccountId.mk same)
      rw [Octets.ofBytes?, dif_neg (by rw [List.length_take]; omega)] at tail
      cases tail
    rw [if_neg unreserved]
    rfl
  · rfl

theorem splitAsset?_append {asset : Asset} (h : asset.Canonical) (rest : Bytes) :
    splitAsset? (asset.toBytes ++ rest) = some (asset, rest) := by
  cases asset with
  | native =>
    have first := ofBytes?_take (Octets.zero 20) rest
    have after := drop_append (Octets.zero 20) rest
    have shape : Asset.native.toBytes = (Octets.zero 20).val := rfl
    have zero : (Octets.zero 20).isZero = true := by decide
    simp only [splitAsset?, shape, first, after, zero, bind, Option.bind, if_true]
    rfl
  | issued currency issuer => exact splitAsset?_issued h.1 fun same => absurd same h.2
  | token issuer sequence =>
    have shape : (Asset.token issuer sequence).toBytes ++ rest = issuer.octets.val ++
        (Asset.reserved.octets.val ++ (sequence.reverse.val ++ rest)) := by
      simp [Asset.toBytes, AccountId.bytes, Octets.reverse]
    have first := ofBytes?_take issuer.octets
      (Asset.reserved.octets.val ++ (sequence.reverse.val ++ rest))
    have after := drop_append issuer.octets
      (Asset.reserved.octets.val ++ (sequence.reverse.val ++ rest))
    have second := ofBytes?_take Asset.reserved.octets (sequence.reverse.val ++ rest)
    have later : (issuer.octets.val ++ (Asset.reserved.octets.val ++
        (sequence.reverse.val ++ rest))).drop 40 = sequence.reverse.val ++ rest := by
      rw [show 40 = 20 + 20 from rfl, ← List.drop_drop, after, drop_append]
    have third := ofBytes?_take sequence.reverse rest
    have end_of : (issuer.octets.val ++ (Asset.reserved.octets.val ++
        (sequence.reverse.val ++ rest))).drop 44 = rest := by
      rw [show 44 = 40 + 4 from rfl, ← List.drop_drop, later, drop_append]
    have foreign : issuer.octets.isZero = false := h
    rw [shape]
    simp only [splitAsset?, first, after, second, later, third, end_of, foreign, bind, Option.bind,
      if_true, Octets.reverse_reverse]
    rfl

/-- The parts of a bridge's bytes behind its first door, which is always the right one. -/
theorem split?_toBytes (bridge : Bridge) :
    split? bridge.toBytes = do
      let (lockingAsset, bytes) ← splitAsset? (bridge.lockingAsset.toBytes ++
        doorLength :: (bridge.issuingDoor.bytes ++ bridge.issuingAsset.toBytes))
      let (issuingDoor, bytes) ← splitDoor? bytes
      let (issuingAsset, _) ← splitAsset? bytes
      return { lockingDoor := bridge.lockingDoor, lockingAsset, issuingDoor, issuingAsset } := by
  have shape : bridge.toBytes = doorLength :: (bridge.lockingDoor.bytes ++
      (bridge.lockingAsset.toBytes ++
        doorLength :: (bridge.issuingDoor.bytes ++ bridge.issuingAsset.toBytes))) := by
    simp [toBytes]
  rw [shape, split?, splitDoor?_append]
  rfl

theorem toJson_of_canonical {bridge : Bridge} (h : bridge.Canonical) :
    bridge.toJson = .ok bridge.membersJson := by
  have last := splitAsset?_append h.2 []
  rw [List.append_nil] at last
  rw [toJson, split?_toBytes, splitAsset?_append h.1]
  simp only [splitDoor?_append, last, bind, Option.bind]
  rfl

theorem ofJson_membersJson {bridge : Bridge} (h : bridge.Canonical) :
    ofJson bridge.membersJson = .ok bridge := by
  have door : member "LockingChainDoor" bridge.membersJson = .ok bridge.lockingDoor.toJson := by
    simp [member, membersJson, Json.get?]
  have asset : member "LockingChainIssue" bridge.membersJson = .ok bridge.lockingAsset.toJson := by
    simp [member, membersJson, Json.get?, List.lookup_cons]
  have door' : member "IssuingChainDoor" bridge.membersJson = .ok bridge.issuingDoor.toJson := by
    simp [member, membersJson, Json.get?, List.lookup_cons]
  have asset' : member "IssuingChainIssue" bridge.membersJson = .ok bridge.issuingAsset.toJson := by
    simp [member, membersJson, Json.get?, List.lookup_cons]
  rw [membersJson] at door asset door' asset' ⊢
  simp only [ofJson, door, asset, door', asset', AccountId.ofJson_toJson,
    Asset.ofJson_toJson h.1.nameable, Asset.ofJson_toJson h.2.nameable, bind, Except.bind]
  rfl

end Bridge

namespace Amount

/-- An amount as JSON builds it: drops that there can be, or a mantissa of sixteen digits with an
exponent in range, or the issued zero with no bit set. -/
def Settled : Amount → Prop
  | .native positive drops => positive = true ∧ drops.toNat ≤ maxDrops
  | .issued positive biased mantissa _ _ =>
    (positive = false ∧ biased = 0 ∧ mantissa = 0) ∨
      (10 ^ 15 ≤ mantissa.toNat ∧ mantissa.toNat < 10 ^ 16 ∧ 1 ≤ biased.toNat ∧
        biased.toNat ≤ 177)

theorem canonical_of_settled {amount : Amount} (h : amount.Settled) : amount.Canonical := by
  cases amount with
  | native => trivial
  | issued positive biased mantissa =>
    rw [Canonical, isNormal, Bool.or_eq_true, Bool.and_eq_true]
    rcases h with ⟨-, -, rfl⟩ | ⟨lower, upper, -⟩
    · exact .inl rfl
    · exact .inr ⟨decide_eq_true lower, decide_eq_true upper⟩

def CountsDrops (d : Decimal) : Prop :=
  d.isZero = false → 0 ≤ d.exponent ∧ d.negative = false ∧ d.leadingExponent ≤ 17

theorem ofDrops_eq_ok {text : String} {amount : Amount} :
    ofDrops text = .ok amount ↔ ∃ d, Decimal.ofText? text = some d ∧ CountsDrops d ∧
      Text.isDigits text.toList = true ∧ Text.natOfDigits text.toList ≤ maxDrops ∧
      amount = .native true (BitVec.ofNat 62 (Text.natOfDigits text.toList)) := by
  unfold ofDrops
  cases read : Decimal.ofText? text with
  | none => exact ⟨nofun, nofun⟩
  | some d =>
    have made {value : Amount} : (pure value : Except Error Amount) = .ok amount ↔ amount = value :=
      ⟨fun h => (Except.ok.inj h).symm, fun h => congrArg Except.ok h.symm⟩
    have in_word : Text.natOfDigits text.toList ≤ maxDrops →
        Text.natOfDigits text.toList < capacity 8 := fun bound =>
      Nat.lt_of_le_of_lt bound (by decide)
    simp only [Option.some.injEq, exists_eq_left', CountsDrops]
    cases zero : d.isZero
    · simp only [Bool.not_false, if_true, refuse_eq_ok, made, Bool.not_eq_true, Bool.not_eq_false',
        Int.not_lt, Nat.not_lt, Nat.not_le]
      tauto
    · simp only [Bool.not_true, Bool.false_eq_true, if_false, refuse_eq_ok, made, Nat.not_lt,
        Nat.not_le, Bool.not_eq_true, Bool.not_eq_false']
      tauto

theorem settled_of_ofDrops {text : String} {amount : Amount} (h : ofDrops text = .ok amount) :
    amount.Settled := by
  obtain ⟨-, -, -, -, bound, rfl⟩ := ofDrops_eq_ok.mp h
  refine ⟨rfl, ?_⟩
  rw [BitVec.toNat_ofNat]
  exact Nat.le_trans (Nat.mod_le _ _) bound

theorem ofDrops_digits {text : String} (digits : Text.isDigits text.toList = true)
    (bound : Text.natOfDigits text.toList ≤ maxDrops) :
    ofDrops text = .ok (.native true (BitVec.ofNat 62 (Text.natOfDigits text.toList))) := by
  have small : Text.natOfDigits text.toList < 10 ^ 18 := Nat.lt_of_le_of_lt bound (by decide)
  have few := Decimal.length_toDigits_le (by decide) small
  obtain ⟨d, read, plain⟩ := Decimal.ofText?_digits digits (by omega)
  refine ofDrops_eq_ok.mpr ⟨d, read, fun nonzero => ?_, digits, bound, rfl⟩
  obtain ⟨whole, positive, lead⟩ := plain nonzero
  exact ⟨whole, positive, by omega⟩

theorem ofDrops_toString {drops : BitVec 62} (bound : drops.toNat ≤ maxDrops) :
    ofDrops (toString drops.toNat) = .ok (.native true drops) := by
  have digits := Text.isDigits_toDigits drops.toNat
  have value := Text.natOfDigits_toDigits drops.toNat
  rw [← Decimal.toList_toString] at digits value
  rw [ofDrops_digits digits (by rwa [value]), value, BitVec.ofNat_toNat]
  rfl

theorem issuedParts_eq_ok {text : String} {positive : Bool} {biased : UInt8}
    {mantissa : BitVec 54} :
    issuedParts text = .ok (positive, biased, mantissa) ↔
      ∃ d, Decimal.ofText? text = some d ∧
        ((d.isZero = true ∧ positive = false ∧ biased = 0 ∧ mantissa = 0) ∨
          (d.isZero = false ∧ ∃ m e, d.normalize typeName = .ok (m, e) ∧ e ≤ maxExponent ∧
            minExponent ≤ e ∧ positive = !d.negative ∧
            biased = UInt8.ofNat (e + exponentBias).toNat ∧ mantissa = BitVec.ofNat 54 m)) := by
  unfold issuedParts
  cases read : Decimal.ofText? text with
  | none => exact ⟨nofun, nofun⟩
  | some d =>
    have made {value : Bool × UInt8 × BitVec 54} : (pure value : Except Error _) =
        .ok (positive, biased, mantissa) ↔ (positive, biased, mantissa) = value :=
      ⟨fun h => (Except.ok.inj h).symm, fun h => congrArg Except.ok h.symm⟩
    simp only [Option.some.injEq, exists_eq_left']
    cases zero : d.isZero
    · simp only [Bool.false_eq_true, if_false, bind_eq_ok, refuse_eq_ok, made, Prod.exists,
        Prod.mk.injEq, Int.not_lt]
      simp
    · simp [made]

theorem issuedParts_of_writes {text : String} {positive : Bool} {biased : UInt8}
    {mantissa : BitVec 54} (range : 1 ≤ biased.toNat ∧ biased.toNat ≤ 177)
    (h : Decimal.Writes text (!positive) mantissa.toNat (biased.toNat - (exponentBias : Int))) :
    issuedParts text = .ok (positive, biased, mantissa) := by
  obtain ⟨d, read, sign, nonzero, normal⟩ := h
  rw [issuedParts_eq_ok]
  refine ⟨d, read, .inr ⟨by simpa [Decimal.isZero] using nonzero, _, _, normal typeName, ?_, ?_,
    by simp [sign], ?_, ?_⟩⟩
  · simp only [maxExponent, exponentBias]
    omega
  · simp only [minExponent, exponentBias]
    omega
  · simp
  · simp

theorem issuedParts_cases {text : String} {positive : Bool} {biased : UInt8} {mantissa : BitVec 54}
    (h : issuedParts text = .ok (positive, biased, mantissa)) :
    (positive = false ∧ biased = 0 ∧ mantissa = 0) ∨
      (10 ^ 15 ≤ mantissa.toNat ∧ mantissa.toNat < 10 ^ 16 ∧ 1 ≤ biased.toNat ∧
        biased.toNat ≤ 177) := by
  obtain ⟨d, -, zero | ⟨nonzero, m, e, normal, upper, lower, -, rfl, rfl⟩⟩ := issuedParts_eq_ok.mp h
  · exact .inl zero.2
  · rw [Decimal.normalize_eq_ok (by simpa [Decimal.isZero] using nonzero)] at normal
    obtain ⟨-, -, -, bounds⟩ := normal
    simp only [maxExponent, minExponent] at upper lower
    refine .inr ?_
    simp only [BitVec.toNat_ofNat, UInt8.toNat_ofNat', exponentBias]
    omega

theorem settled_of_ofJson {json : Json} {amount : Amount} (h : ofJson json = .ok amount) :
    amount.Settled := by
  unfold ofJson at h
  split at h
  · exact settled_of_ofDrops h
  · split at h
    · obtain ⟨⟨positive, biased, mantissa⟩, parts, h⟩ := bind_eq_ok.mp h
      obtain ⟨currency, -, h⟩ := bind_eq_ok.mp h
      obtain ⟨issuer, -, h⟩ := bind_eq_ok.mp h
      cases h
      exact issuedParts_cases parts
    · cases h
  · cases h

theorem ofJson_toJson {amount : Amount} (h : amount.Settled) :
    ofJson amount.toJson = .ok amount := by
  cases amount with
  | native positive drops =>
    obtain ⟨rfl, bound⟩ := h
    exact ofDrops_toString bound
  | issued positive biased mantissa currency issuer =>
    have value : issuedParts (Decimal.render (!positive) mantissa.toNat
        (biased.toNat - (exponentBias : Int))) = .ok (positive, biased, mantissa) := by
      rcases h with ⟨rfl, rfl, rfl⟩ | ⟨lower, upper, range⟩
      · decide
      · apply issuedParts_of_writes range
        apply Decimal.writes_render (!positive) ⟨lower, upper⟩
        simp only [exponentBias]
        omega
    have parts : ofIssued (Decimal.render (!positive) mantissa.toNat
        (biased.toNat - (exponentBias : Int))) currency.toJson issuer.toJson =
          .ok (.issued positive biased mantissa currency issuer) := by
      simp only [ofIssued, value, Currency.ofJson_toJson, AccountId.ofJson_toJson, bind,
        Except.bind]
      rfl
    simpa [toJson, ofJson, Json.get?, List.lookup_cons] using parts

end Amount

namespace Quantity

/-- A number as JSON builds it: zero, or a mantissa of sixteen digits with an exponent in range. -/
def Settled (q : Quantity) : Prop :=
  q = zero ∨ (10 ^ 15 ≤ q.mantissa.toInt.natAbs ∧ q.mantissa.toInt.natAbs < 10 ^ 16 ∧
    minExponent ≤ q.exponent.toInt ∧ q.exponent.toInt ≤ maxExponent)

theorem ofText_eq_ok {text : String} {q : Quantity} :
    ofText text = .ok q ↔ ∃ d, Decimal.ofText? text = some d ∧
      ((d.isZero = true ∧ q = zero) ∨
        (d.isZero = false ∧ ∃ m e, d.normalize typeName = .ok (m, e) ∧ e ≤ maxExponent ∧
          q = if e < minExponent then zero
            else ⟨Int64.ofInt (if d.negative then -m else m), Int32.ofInt e⟩)) := by
  unfold ofText
  cases read : Decimal.ofText? text with
  | none => exact ⟨nofun, nofun⟩
  | some d =>
    have made {value : Quantity} : (pure value : Except Error _) = .ok q ↔ q = value :=
      ⟨fun h => (Except.ok.inj h).symm, fun h => congrArg Except.ok h.symm⟩
    have either {c : Prop} [Decidable c] {a b : Quantity} :
        (if c then pure a else pure b : Except Error Quantity) = pure (if c then a else b) := by
      split <;> rfl
    simp only [Option.some.injEq, exists_eq_left']
    cases zero : d.isZero
    · simp only [Bool.false_eq_true, if_false, bind_eq_ok, refuse_eq_ok, either, made, Prod.exists,
        Int.not_lt]
      simp
    · simp [made]

theorem settled_of_ofText {text : String} {q : Quantity} (h : ofText text = .ok q) : q.Settled := by
  obtain ⟨d, -, ⟨-, rfl⟩ | ⟨nonzero, m, e, normal, upper, rfl⟩⟩ := ofText_eq_ok.mp h
  · exact .inl rfl
  · rw [Decimal.normalize_eq_ok (by simpa [Decimal.isZero] using nonzero)] at normal
    obtain ⟨-, -, -, bounds⟩ := normal
    split
    · exact .inl rfl
    · rename_i lower
      have exponent_bound : e ≤ 32768 := upper
      have exponent_lower : -32768 ≤ e := Int.not_lt.mp lower
      have exponent : (Int32.ofInt e).toInt = e := Int32.toInt_ofInt_of_le (by omega) (by omega)
      have mantissa : (Int64.ofInt (if d.negative then -(m : Int) else m)).toInt =
          if d.negative then -(m : Int) else m :=
        Int64.toInt_ofInt_of_le (by split <;> omega) (by split <;> omega)
      have digits : (if d.negative then -(m : Int) else m).natAbs = m := by split <;> omega
      refine .inr ?_
      simp only [exponent, mantissa, digits]
      exact ⟨bounds.1, bounds.2, exponent_lower, exponent_bound⟩

theorem settled_of_ofJson {json : Json} {q : Quantity} (h : ofJson json = .ok q) : q.Settled := by
  unfold ofJson at h
  split at h
  · exact settled_of_ofText h
  · exact settled_of_ofText h
  · cases h

theorem ofText_of_writes {q : Quantity} {text : String} (range : minExponent ≤ q.exponent.toInt ∧
      q.exponent.toInt ≤ maxExponent)
    (h : Decimal.Writes text (decide (q.mantissa.toInt < 0)) q.mantissa.toInt.natAbs
      q.exponent.toInt) : ofText text = .ok q := by
  obtain ⟨d, read, sign, nonzero, normal⟩ := h
  rw [ofText_eq_ok]
  refine ⟨d, read,
    .inr ⟨by simpa [Decimal.isZero] using nonzero, _, _, normal typeName, range.2, ?_⟩⟩
  have mantissa :
      (if d.negative then -(q.mantissa.toInt.natAbs : Int) else q.mantissa.toInt.natAbs) =
      q.mantissa.toInt := by
    rw [sign]
    simp only [decide_eq_true_eq]
    split <;> omega
  rw [if_neg (by omega), mantissa, Int64.ofInt_toInt, Int32.ofInt_toInt]

theorem ofJson_toJson {q : Quantity} (h : q.Settled) : ofJson q.toJson = .ok q := by
  rcases h with rfl | ⟨lower, upper, range⟩
  · decide
  · have nonzero : q.isZero = false := by
      rw [isZero, beq_eq_false_iff_ne]
      intro zero
      rw [zero] at lower
      revert lower
      decide
    have least : -32768 ≤ q.exponent.toInt := range.1
    have largest : q.exponent.toInt ≤ 32768 := range.2
    rw [toJson, nonzero, if_neg nofun, ofJson]
    exact ofText_of_writes range (Decimal.writes_exponent ⟨lower, upper⟩ (by omega))

end Quantity

end LedgerWire
