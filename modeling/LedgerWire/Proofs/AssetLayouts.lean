import LedgerWire.Proofs.LeafForms

/-!
The three layouts of an asset are told apart by what stands in them: 20 zero bytes are the native
asset, and the reserved account in the place of the issuer marks a token. JSON also names tokens of
the account of zeros and currencies issued by the reserved account, whose bytes look like another
layout. Every other asset delimits itself, and a bridge is rendered faithfully where neither of its
assets is taken for another one.
-/

namespace LedgerWire

namespace Asset

/-- A token of the account of zeros starts like the native asset. -/
def LooksNative : Asset → Prop
  | .token issuer _ => issuer = .zero
  | _ => False

/-- A currency issued by the reserved account starts like a token. -/
def LooksToken : Asset → Prop
  | .issued _ issuer => issuer = reserved
  | _ => False

def Imitates (asset : Asset) : Prop := asset.LooksNative ∨ asset.LooksToken

theorem cases_of_ofJson {json : Json} {asset : Asset} (h : ofJson json = .ok asset) :
    (∃ id, ofTokenId id = .ok asset) ∨
      ∃ currency, ofCurrency currency (json.get? "issuer") = .ok asset := by
  unfold ofJson at h
  split at h
  · split at h
    · obtain ⟨id, -, h⟩ := bind_eq_ok.mp h
      exact .inl ⟨id, h⟩
    · split at h
      · obtain ⟨currency, -, h⟩ := bind_eq_ok.mp h
        exact .inr ⟨currency, h⟩
      · cases h
  · cases h

theorem nameable_of_ofJson {json : Json} {asset : Asset} (h : ofJson json = .ok asset) :
    asset.Nameable := by
  rcases cases_of_ofJson h with ⟨id, token⟩ | ⟨currency, other⟩
  · obtain ⟨bytes, -, token⟩ := bind_eq_ok.mp token
    obtain ⟨exact_id, -, token⟩ := bind_eq_ok.mp token
    cases token
    trivial
  · unfold ofCurrency at other
    split at other
    · cases other
      trivial
    · cases other
    · rename_i foreign _
      obtain ⟨issuer, -, other⟩ := bind_eq_ok.mp other
      cases other
      exact foreign
    · cases other

theorem toJson_inj {a b : Asset} (a_nameable : a.Nameable) (b_nameable : b.Nameable)
    (same : a.toJson = b.toJson) : a = b := by
  have read := ofJson_toJson a_nameable
  rw [same, ofJson_toJson b_nameable] at read
  exact (Except.ok.inj read).symm

theorem canonical_iff_not_imitates {asset : Asset} (h : asset.Nameable) :
    asset.Canonical ↔ ¬ asset.Imitates := by
  cases asset with
  | native => exact ⟨fun _ imitates => imitates.elim id id, fun _ => trivial⟩
  | issued currency issuer =>
    exact ⟨fun canonical imitates => imitates.elim id canonical.2,
      fun distinct => ⟨h, fun same => distinct (.inr same)⟩⟩
  | token issuer sequence =>
    have zero : issuer.octets.isZero = true ↔ issuer = .zero :=
      ⟨fun zero => congrArg AccountId.mk (Octets.eq_zero_of_isZero zero), by rintro rfl; decide⟩
    simp [Canonical, Imitates, LooksNative, LooksToken, ← zero]

theorem LooksNative.bytes {asset : Asset} (h : asset.LooksNative) :
    asset.toBytes = Asset.native.toBytes ++ asset.toBytes.drop 20 := by
  cases asset with
  | token issuer sequence =>
    obtain rfl : issuer = .zero := h
    rfl
  | _ => cases h

theorem length_toBytes (asset : Asset) : 20 ≤ asset.toBytes.length := by
  cases asset <;> simp [toBytes]

theorem LooksNative.length_toBytes {asset : Asset} (h : asset.LooksNative) :
    asset.toBytes.length = 44 := by
  cases asset with
  | token issuer sequence => simp [toBytes, sequence.property]
  | _ => cases h

theorem LooksToken.bytes {asset : Asset} (h : asset.LooksToken) (nameable : asset.Nameable) :
    ∃ account : AccountId, account.octets.isZero = false ∧ ∀ tail : Octets 4,
      asset.toBytes ++ tail.val = (Asset.token account tail.reverse).toBytes := by
  cases asset with
  | issued currency issuer =>
    obtain rfl : issuer = reserved := h
    refine ⟨⟨currency.octets⟩, nameable, fun tail => ?_⟩
    simp [toBytes, AccountId.bytes, Currency.bytes, Octets.reverse]
  | _ => cases h

theorem Imitates.starts {asset : Asset} (h : asset.Imitates) (nameable : asset.Nameable)
    (tail : Octets 4) (rest : Bytes) :
    ∃ (other : Asset) (back : Bytes), other.Canonical ∧ other.toJson ≠ asset.toJson ∧
      asset.toBytes ++ (tail.val ++ rest) = other.toBytes ++ back := by
  have differs {other : Asset} (canonical : other.Canonical) : other.toJson ≠ asset.toJson :=
    fun same =>
      (canonical_iff_not_imitates nameable).mp
        (toJson_inj canonical.nameable nameable same ▸ canonical) h
  rcases h with native | token
  · refine ⟨.native, asset.toBytes.drop 20 ++ (tail.val ++ rest), trivial, differs trivial, ?_⟩
    rw [← List.append_assoc Asset.native.toBytes, ← native.bytes]
  · obtain ⟨account, nonzero, bytes⟩ := token.bytes nameable
    refine ⟨.token account tail.reverse, rest, nonzero, differs nonzero, ?_⟩
    rw [← List.append_assoc, bytes]

theorem toJson_ne_of_read {asset other : Asset} (h : asset.Imitates) (nameable : asset.Nameable)
    {announced : Option Nat} {before after : Cursor}
    (read : read announced before = .ok other after) : other.toJson ≠ asset.toJson := by
  have canonical := canonical_of_read read
  intro same
  obtain rfl := toJson_inj canonical.nameable nameable same
  exact (canonical_iff_not_imitates nameable).mp canonical h

/-- An asset that JSON names is read back from its bytes, whatever follows them, if it does not
look like another one; if it does, whatever is read from its bytes has another rendering. -/
theorem self_delimiting {json : Json} {asset : Asset} (built : ofJson json = .ok asset) :
    (¬ asset.Imitates → ∀ announced, Announces announced asset.toBytes.length →
      Reads (read announced) asset.toBytes asset) ∧
    (asset.Imitates → ∀ announced position rest other after,
      read announced ⟨position, asset.toBytes ++ rest⟩ = .ok other after →
        other.toJson ≠ asset.toJson) := by
  have nameable := nameable_of_ofJson built
  refine ⟨fun distinct announced announces => ?_, fun imitates _ _ _ _ _ read => ?_⟩
  · exact read_toBytes ((canonical_iff_not_imitates nameable).mpr distinct) announces
  · exact toJson_ne_of_read imitates nameable read

/-- The code spells the reserved account, and the issuer is the account of zeros. -/
def reservedCode : Json :=
  .object [("currency", .string "0000000000000000000000000000000000000001"),
    ("issuer", .string "")]

def zeroToken : Json :=
  .object [("mpt_issuance_id", .string "000000010000000000000000000000000000000000000000")]

theorem reservedCode_distinct : ¬ (Asset.issued ⟨Octets.ofNat 20 1⟩ .zero).Imitates :=
  fun imitates => imitates.elim id fun same => absurd (congrArg AccountId.octets same) (by decide)

theorem self_delimiting_reservedCode :
    ofJson reservedCode = .ok (.issued ⟨Octets.ofNat 20 1⟩ .zero) ∧
    ofJson zeroToken = .ok (.token .zero (Octets.ofNat 4 1)) ∧
    (∀ announced, Announces announced 40 →
      Reads (read announced) (beBytes 20 1 ++ beBytes 20 0)
        (.issued ⟨Octets.ofNat 20 1⟩ .zero)) ∧
    ∀ announced position rest other after,
      read announced ⟨position, beBytes 20 0 ++ beBytes 20 1 ++ [1, 0, 0, 0] ++ rest⟩ =
        .ok other after → other.toJson ≠ (Asset.token .zero (Octets.ofNat 4 1)).toJson := by
  have code : ofJson reservedCode = .ok (.issued ⟨Octets.ofNat 20 1⟩ .zero) := rfl
  have token : ofJson zeroToken = .ok (.token .zero (Octets.ofNat 4 1)) := rfl
  exact ⟨code, token, (self_delimiting code).1 reservedCode_distinct,
    (self_delimiting token).2 (.inl rfl)⟩

/-- A token of the account of zeros is read as the native asset, and its last 24 bytes are left. -/
theorem zeroToken_read_native :
    ofJson zeroToken = .ok (.token .zero (Octets.ofNat 4 1)) ∧
    read none ⟨0, (Asset.token .zero (Octets.ofNat 4 1)).toBytes⟩ =
      .ok .native ⟨20, reserved.bytes ++ [1, 0, 0, 0]⟩ ∧
    Asset.native.toJson ≠ (Asset.token .zero (Octets.ofNat 4 1)).toJson :=
  ⟨rfl, rfl, by simp [toJson]⟩

end Asset

namespace Bridge

/-- The four members that a bridge is built from, each read as its part of the bridge. -/
def Describes (json : Json) (bridge : Bridge) : Prop :=
  ∃ lockingDoor lockingAsset issuingDoor issuingAsset,
    json.get? "LockingChainDoor" = some lockingDoor ∧
    json.get? "LockingChainIssue" = some lockingAsset ∧
    json.get? "IssuingChainDoor" = some issuingDoor ∧
    json.get? "IssuingChainIssue" = some issuingAsset ∧
    AccountId.ofJson lockingDoor = .ok bridge.lockingDoor ∧
    Asset.ofJson lockingAsset = .ok bridge.lockingAsset ∧
    AccountId.ofJson issuingDoor = .ok bridge.issuingDoor ∧
    Asset.ofJson issuingAsset = .ok bridge.issuingAsset

theorem member_eq_ok {name : String} {json value : Json} :
    member name json = .ok value ↔ json.get? name = some value := by
  unfold member
  cases json.get? name <;> simp

theorem describes_of_ofJson {json : Json} {bridge : Bridge} (h : ofJson json = .ok bridge) :
    Describes json bridge := by
  unfold ofJson at h
  split at h
  · obtain ⟨lockingDoor, locking_door, h⟩ := bind_eq_ok.mp h
    obtain ⟨_, locking_account, h⟩ := bind_eq_ok.mp h
    obtain ⟨lockingAsset, locking_issue, h⟩ := bind_eq_ok.mp h
    obtain ⟨_, locking_asset, h⟩ := bind_eq_ok.mp h
    obtain ⟨issuingDoor, issuing_door, h⟩ := bind_eq_ok.mp h
    obtain ⟨_, issuing_account, h⟩ := bind_eq_ok.mp h
    obtain ⟨issuingAsset, issuing_issue, h⟩ := bind_eq_ok.mp h
    obtain ⟨_, issuing_asset, h⟩ := bind_eq_ok.mp h
    cases h
    exact ⟨lockingDoor, lockingAsset, issuingDoor, issuingAsset, member_eq_ok.mp locking_door,
      member_eq_ok.mp locking_issue, member_eq_ok.mp issuing_door, member_eq_ok.mp issuing_issue,
      locking_account, locking_asset, issuing_account, issuing_asset⟩
  · cases h

theorem assets_nameable {json : Json} {bridge : Bridge} (h : ofJson json = .ok bridge) :
    bridge.lockingAsset.Nameable ∧ bridge.issuingAsset.Nameable := by
  obtain ⟨_, _, _, _, -, -, -, -, -, locking, -, issuing⟩ := describes_of_ofJson h
  exact ⟨Asset.nameable_of_ofJson locking, Asset.nameable_of_ofJson issuing⟩

theorem splitDoor?_isSome (bytes : Bytes) (h : 21 ≤ bytes.length) :
    ∃ door, splitDoor? bytes = some (door, bytes.drop 21) := by
  have length : ((bytes.drop 1).take 20).length = 20 := by
    rw [List.length_take, List.length_drop]
    omega
  exact ⟨⟨⟨_, length⟩⟩, by rw [splitDoor?, Octets.ofBytes?, dif_pos length]; rfl⟩

theorem splitAsset?_isSome (bytes : Bytes) (h : 40 ≤ bytes.length) :
    ∃ parts, splitAsset? bytes = some parts := by
  have first : (bytes.take 20).length = 20 := by
    rw [List.length_take]
    omega
  have second : ((bytes.drop 20).take 20).length = 20 := by
    rw [List.length_take, List.length_drop]
    omega
  simp only [splitAsset?, Octets.ofBytes?, dif_pos first, dif_pos second, bind, Option.bind]
  split
  · exact ⟨_, rfl⟩
  · split
    · split <;> exact ⟨_, rfl⟩
    · exact ⟨_, rfl⟩

theorem splitAsset?_looksNative {asset : Asset} (h : asset.LooksNative) (rest : Bytes) :
    splitAsset? (asset.toBytes ++ rest) = some (.native, asset.toBytes.drop 20 ++ rest) := by
  have canonical : Asset.native.Canonical := trivial
  have split := splitAsset?_append canonical (asset.toBytes.drop 20 ++ rest)
  rwa [← List.append_assoc, ← h.bytes] at split

theorem splitAsset?_toBytes {asset : Asset} (nameable : asset.Nameable)
    (h : ¬ asset.LooksNative) : splitAsset? asset.toBytes = some (asset, []) := by
  rw [← List.append_nil asset.toBytes]
  cases asset with
  | native =>
    have canonical : Asset.native.Canonical := trivial
    exact splitAsset?_append canonical []
  | issued currency issuer => exact splitAsset?_issued nameable fun _ => by decide
  | token issuer sequence =>
    refine splitAsset?_append ((Asset.canonical_iff_not_imitates nameable).mpr ?_) []
    exact fun imitates => imitates.elim h id

theorem splitAsset?_toBytes_isSome {asset : Asset} (nameable : asset.Nameable) :
    ∃ parts, splitAsset? asset.toBytes = some parts := by
  by_cases native : asset.LooksNative
  · have split := splitAsset?_looksNative native []
    rw [List.append_nil] at split
    exact ⟨_, split⟩
  · exact ⟨_, splitAsset?_toBytes nameable native⟩

variable {bridge : Bridge}

theorem toJson_ne_of_imitates (h : bridge.lockingAsset.Imitates)
    (nameable : bridge.lockingAsset.Nameable) : bridge.toJson ≠ .ok bridge.membersJson := by
  have length : (doorLength :: bridge.issuingDoor.bytes.take 3).length = 4 := by
    simp [AccountId.length_bytes]
  obtain ⟨other, back, canonical, differs, bytes⟩ := h.starts nameable ⟨_, length⟩
    (bridge.issuingDoor.bytes.drop 3 ++ bridge.issuingAsset.toBytes)
  rw [List.cons_append, ← List.append_assoc (List.take _ _), List.take_append_drop] at bytes
  intro rendered
  rw [toJson, split?_toBytes, bytes, splitAsset?_append canonical] at rendered
  split at rendered
  · rename_i parts split
    obtain ⟨_, found, split⟩ := Option.bind_eq_some_iff.mp split
    obtain ⟨_, -, split⟩ := Option.bind_eq_some_iff.mp split
    obtain ⟨_, -, split⟩ := Option.bind_eq_some_iff.mp split
    cases found
    cases split
    simp only [membersJson, Except.ok.injEq, Json.object.injEq, List.cons.injEq, Prod.mk.injEq,
      true_and] at rendered
    exact differs rendered.1
  · cases rendered

theorem split?_of_canonical (h : bridge.lockingAsset.Canonical) :
    split? bridge.toBytes = (splitAsset? bridge.issuingAsset.toBytes).map fun parts =>
      { bridge with issuingAsset := parts.1 } := by
  rw [split?_toBytes, splitAsset?_append h]
  simp only [splitDoor?_append, bind, Option.bind]
  cases splitAsset? bridge.issuingAsset.toBytes <;> rfl

theorem toJson_ne_of_looksNative (locking : bridge.lockingAsset.Canonical)
    (issuing : bridge.issuingAsset.LooksNative) : bridge.toJson ≠ .ok bridge.membersJson := by
  have split := splitAsset?_looksNative issuing []
  rw [List.append_nil, List.append_nil] at split
  rw [toJson, split?_of_canonical locking, split]
  intro rendered
  simp only [Option.map_some, membersJson, Except.ok.injEq, Json.object.injEq, List.cons.injEq,
    Prod.mk.injEq, true_and, and_true] at rendered
  cases kind : bridge.issuingAsset with
  | token issuer sequence =>
    rw [kind] at rendered
    simp [Asset.toJson] at rendered
  | _ =>
    rw [kind] at issuing
    exact issuing

theorem exists_toJson (nameable : bridge.lockingAsset.Nameable ∧ bridge.issuingAsset.Nameable)
    (h : ¬ bridge.lockingAsset.LooksToken) : ∃ rendered, bridge.toJson = .ok rendered := by
  suffices parts : ∃ parts, split? bridge.toBytes = some parts by
    obtain ⟨parts, split⟩ := parts
    exact ⟨parts.membersJson, by rw [toJson, split]⟩
  by_cases native : bridge.lockingAsset.LooksNative
  · have length := native.length_toBytes
    have last := bridge.issuingAsset.length_toBytes
    have door := bridge.issuingDoor.length_bytes
    rw [split?_toBytes, splitAsset?_looksNative native]
    obtain ⟨issuingDoor, door_split⟩ := splitDoor?_isSome
      (bridge.lockingAsset.toBytes.drop 20 ++
        doorLength :: (bridge.issuingDoor.bytes ++ bridge.issuingAsset.toBytes))
      (by simp only [List.length_append, List.length_cons, List.length_drop]; omega)
    obtain ⟨parts, asset_split⟩ := splitAsset?_isSome
      ((bridge.lockingAsset.toBytes.drop 20 ++
        doorLength :: (bridge.issuingDoor.bytes ++ bridge.issuingAsset.toBytes)).drop 21)
      (by simp only [List.length_append, List.length_cons, List.length_drop]; omega)
    simp only [door_split, asset_split, bind, Option.bind]
    exact ⟨_, rfl⟩
  · have canonical := (Asset.canonical_iff_not_imitates nameable.1).mpr (not_or.mpr ⟨native, h⟩)
    obtain ⟨parts, split⟩ := splitAsset?_toBytes_isSome nameable.2
    exact ⟨_, by rw [split?_of_canonical canonical, split]; rfl⟩

/-- A bridge that JSON names is made of its four members. They are rendered as they were read
unless the locking asset looks like another one or the issuing asset like the native one, and
something is rendered unless the locking asset looks like a token. -/
theorem rendering_faithful_iff {json : Json} (built : ofJson json = .ok bridge) :
    Describes json bridge ∧
    (bridge.toJson = .ok bridge.membersJson ↔
      ¬ bridge.lockingAsset.Imitates ∧ ¬ bridge.issuingAsset.LooksNative) ∧
    (¬ bridge.lockingAsset.LooksToken → ∃ rendered, bridge.toJson = .ok rendered) := by
  have nameable := assets_nameable built
  refine ⟨describes_of_ofJson built, ⟨fun faithful => ?_, fun ⟨locking, issuing⟩ => ?_⟩,
    exists_toJson nameable⟩
  · have locking : ¬ bridge.lockingAsset.Imitates :=
      fun imitates => toJson_ne_of_imitates imitates nameable.1 faithful
    have canonical := (Asset.canonical_iff_not_imitates nameable.1).mpr locking
    exact ⟨locking, fun native => toJson_ne_of_looksNative canonical native faithful⟩
  · have canonical := (Asset.canonical_iff_not_imitates nameable.1).mpr locking
    rw [toJson, split?_of_canonical canonical, splitAsset?_toBytes nameable.2 issuing]
    rfl

def reservedOnBothSides : Json :=
  .object [("LockingChainDoor", .string ""), ("LockingChainIssue", Asset.reservedCode),
    ("IssuingChainDoor", .string ""),
    ("IssuingChainIssue", .object [("currency", .string "USD"),
      ("issuer", .string "0000000000000000000000000000000000000001")])]

theorem rendering_faithful_reservedOnBothSides :
    ofJson reservedOnBothSides = .ok
      { lockingDoor := .zero, lockingAsset := .issued ⟨Octets.ofNat 20 1⟩ .zero,
        issuingDoor := .zero,
        issuingAsset := .issued (Currency.ofCode 'U' 'S' 'D') Asset.reserved } ∧
    toJson
      { lockingDoor := .zero, lockingAsset := .issued ⟨Octets.ofNat 20 1⟩ .zero,
        issuingDoor := .zero,
        issuingAsset := .issued (Currency.ofCode 'U' 'S' 'D') Asset.reserved } =
      .ok (.object
        [("LockingChainDoor", AccountId.zero.toJson),
         ("LockingChainIssue", (Asset.issued ⟨Octets.ofNat 20 1⟩ .zero).toJson),
         ("IssuingChainDoor", AccountId.zero.toJson),
         ("IssuingChainIssue",
           (Asset.issued (Currency.ofCode 'U' 'S' 'D') Asset.reserved).toJson)]) := by
  have built : ofJson reservedOnBothSides = .ok
      { lockingDoor := .zero, lockingAsset := .issued ⟨Octets.ofNat 20 1⟩ .zero,
        issuingDoor := .zero,
        issuingAsset := .issued (Currency.ofCode 'U' 'S' 'D') Asset.reserved } := rfl
  exact ⟨built, (rendering_faithful_iff built).2.1.mpr ⟨Asset.reservedCode_distinct, id⟩⟩

/-- A bridge to a token of the account of zeros is rendered as one to the native asset, and a
bridge between a currency issued by the reserved account and the native asset not at all. -/
theorem bridges_misread :
    (ofJson (.object [("LockingChainDoor", .string ""),
        ("LockingChainIssue", .object [("currency", .string "XRP")]),
        ("IssuingChainDoor", .string ""), ("IssuingChainIssue", Asset.zeroToken)]) =
      .ok ⟨.zero, .native, .zero, .token .zero (Octets.ofNat 4 1)⟩ ∧
    toJson ⟨.zero, .native, .zero, .token .zero (Octets.ofNat 4 1)⟩ =
      .ok (membersJson ⟨.zero, .native, .zero, .native⟩) ∧
    Asset.native.toJson ≠ (Asset.token .zero (Octets.ofNat 4 1)).toJson) ∧
    ofJson (.object [("LockingChainDoor", .string ""),
        ("LockingChainIssue", .object [("currency", .string "USD"),
          ("issuer", .string "0000000000000000000000000000000000000001")]),
        ("IssuingChainDoor", .string ""),
        ("IssuingChainIssue", .object [("currency", .string "XRP")])]) =
      .ok ⟨.zero, .issued (Currency.ofCode 'U' 'S' 'D') Asset.reserved, .zero, .native⟩ ∧
    toJson ⟨.zero, .issued (Currency.ofCode 'U' 'S' 'D') Asset.reserved, .zero, .native⟩ =
      .error (.malformed typeName .bridgeTooShort) :=
  ⟨⟨rfl, rfl, by simp [Asset.toJson]⟩, rfl, rfl⟩

end Bridge
end LedgerWire
