import LedgerWire.Proofs.Repacking

namespace LedgerWire.Registry
variable (registry : Registry)

/-- The fields of an object with the bytes of each, in wire order. -/
def Written (members : List (String × Json)) (entries : List (Field × Bytes)) : Prop :=
  ∃ expanded, expandAddresses members = .ok expanded ∧
    List.Forall₂ (fun member entry => entry.1 = member.1 ∧
      registry.memberBytes (emptiesAccount expanded) member.1 member.2 = .ok entry.2)
      (registry.wireMembers false expanded) entries

def memberTexts (names : List String) (json : Json) : List String :=
  names.filterMap fun name => (json.get? name).bind Json.string?

def assetTexts (json : Json) : List String :=
  if (json.get? "mpt_issuance_id").isSome then [] else memberTexts ["issuer"] json

/-- The texts that are read as accounts inside a value of a type other than an account. -/
def accountTexts : LeafType → Json → List String
  | .amount, json => memberTexts ["issuer"] json
  | .asset, json => assetTexts json
  | .paths, .array paths => paths.flatMap fun
    | .array steps => steps.flatMap (memberTexts ["account", "issuer"])
    | _ => []
  | .bridge, json => memberTexts ["LockingChainDoor", "IssuingChainDoor"] json ++
    (["LockingChainIssue", "IssuingChainIssue"].filterMap json.get?).flatMap assetTexts
  | _, _ => []

variable {registry}

theorem exists_written {members : List (String × Json)} {bytes : Bytes}
    (accepted : registry.fieldBytes false (.object members) = .ok bytes) :
    ∃ entries, registry.Written members entries ∧ bytes = (entries.map Prod.snd).flatten := by
  obtain ⟨_, expanded, parts, object, expansion, each, rfl⟩ :=
    registry.fieldBytes_eq_ok.mp accepted
  cases object
  suffices paired : ∀ {wire : List (Field × Json)} {parts : List Bytes},
      List.Forall₂ (fun member part =>
        registry.memberBytes (emptiesAccount expanded) member.1 member.2 = .ok part) wire parts →
      ∃ entries, List.Forall₂ (fun member entry => entry.1 = member.1 ∧
        registry.memberBytes (emptiesAccount expanded) member.1 member.2 = .ok entry.2) wire
        entries ∧ parts = entries.map Prod.snd by
    obtain ⟨entries, written, rfl⟩ := paired each
    exact ⟨entries, ⟨expanded, expansion, written⟩, rfl⟩
  intro wire parts each
  induction each with
  | nil => exact ⟨[], .nil, rfl⟩
  | @cons member part wire parts head _ ih =>
    obtain ⟨entries, tail, rfl⟩ := ih
    exact ⟨(member.1, part) :: entries, .cons ⟨rfl, head⟩ tail, rfl⟩

theorem leafOf_packed {field : Field} (unnamed : Enumeration.ofName? field.name = none)
    {tag : UInt32} {leaf : Leaf}
    (built : registry.leafOf field (.unsigned .four) (.ofNat tag.toNat) = .ok leaf) :
    leaf.toBytes = beBytes 4 tag.toNat := by
  have bound : tag.toNat < capacity Width.four.bytes := tag.toNat_lt
  have made : registry.leafOf field (.unsigned .four) (.ofNat tag.toNat) =
      .ok (.unsigned ⟨.four, tag.toNat, bound⟩) := by
    have plain : registry.leafOf field (.unsigned .four) (.ofNat tag.toNat) =
        (Unsigned.ofNat .four tag.toNat).map .unsigned := by
      simp [leafOf, unnamed, Leaf.ofJson, Unsigned.ofJson, Json.ofNat]
      rfl
    rw [plain, Unsigned.ofNat, dif_pos bound]
    rfl
  rw [made] at built
  cases built
  rfl

theorem tag_of_packed {members expanded : List (String × Json)} (distinct : DistinctNames members)
    (expansion : expandAddresses members = .ok expanded) {name text : String} {x : TaggedAddress}
    {tag : UInt32} (member : (name, .string text) ∈ members)
    (read : TaggedAddress.decode text = .ok x) (tagged : x.tag = some tag) :
    ∃ tagName, tagMember? name = some tagName ∧ ∃ json, expanded.lookup tagName = some json ∧
      (json = .ofNat tag.toNat ∨
        ∃ explicit, tagAgrees tag explicit = true ∧ json = explicit.classic) := by
  have here := lookup_of_mem distinct member
  obtain ⟨part, expands⟩ := expands_of_mem expansion member
  cases expands with
  | plain plain => exact absurd read (plain text x rfl)
  | untagged read' untagged =>
    rw [read] at read'
    cases read'
    rw [untagged] at tagged
    cases tagged
  | @moved _ tagName _ _ read' tagged' paired free =>
    rw [read] at read'
    cases read'
    exact ⟨tagName, paired, _, lookup_expanded_of_moves expansion distinct
      ⟨⟨name, text, x, paired, here, read, tagged⟩, free⟩, .inl rfl⟩
  | @agreed _ tagName _ _ explicit read' tagged' paired old agrees =>
    rw [read] at read'
    cases read'
    rw [tagged] at tagged'
    cases tagged'
    refine ⟨tagName, paired, explicit.classic, ?_, .inr ⟨explicit, agrees, rfl⟩⟩
    -- An explicit tag that agrees is there and is not null, so no tag moves into its place.
    rw [lookup_expanded expansion distinct, old, Option.map_some]
    rintro other ⟨-, missing | null⟩
    · rw [old] at missing
      cases missing
    · rw [old] at null
      cases null
      cases agrees

theorem written_tag (lawful : registry.Lawful) {members : List (String × Json)}
    {entries : List (Field × Bytes)} (distinct : DistinctNames members)
    (written : registry.Written members entries) {name text : String} {x : TaggedAddress}
    {tag : UInt32} (member : (name, .string text) ∈ members)
    (read : TaggedAddress.decode text = .ok x) (tagged : x.tag = some tag) :
    ∃ tagName field header, tagMember? name = some tagName ∧
      registry.wireField? false tagName = some field ∧ field.header? = some header ∧
      (field, header.encode ++ beBytes 4 tag.toNat) ∈ entries := by
  obtain ⟨expanded, expansion, each⟩ := written
  obtain ⟨tagName, paired, json, found, value⟩ :=
    tag_of_packed distinct expansion member read tagged
  obtain ⟨field, on_wire, -⟩ :=
    memberType?_eq_some.mp (memberType?_of_carries (lawful.accounts name tagName paired).2)
  obtain ⟨typed, unnamed⟩ := lawful.tag_field paired on_wire
  have in_wire : (field, json) ∈ registry.wireMembers false expanded :=
    mem_wireMembers.mpr ⟨tagName, mem_of_lookup found, on_wire⟩
  obtain ⟨⟨field', part⟩, in_entries, same, made⟩ := exists_right_of_mem each in_wire
  cases same
  obtain ⟨value', bytes, built, wrote, rfl⟩ := value_of_memberBytes made
  rw [valueOf_leaf typed] at built
  obtain ⟨leaf, leaf_built, rfl⟩ := map_eq_ok.mp built
  have leaf_bytes : leaf.toBytes = beBytes 4 tag.toNat := by
    rcases value with rfl | ⟨explicit, agrees, rfl⟩
    · exact leafOf_packed unnamed leaf_built
    · exact leafOf_packed unnamed (leafOf_tag unnamed agrees leaf_built)
  obtain ⟨header, coded, rfl⟩ :=
    fieldBytes_of_unprefixed wrote ((known_of_mem_wireMembers in_wire).variableLength lawful typed)
  refine ⟨tagName, field, header, paired, on_wire, coded, ?_⟩
  have no_object : field.isObject = false := isObject_of_typed typed
  rw [no_object, if_neg nofun, List.append_nil, Value.toBytes, leaf_bytes] at in_entries
  exact in_entries

theorem mem_memberTexts {names : List String} {json : Json} {text : String} :
    text ∈ memberTexts names json ↔ ∃ name ∈ names, json.get? name = some (.string text) := by
  rw [memberTexts, List.mem_filterMap]
  refine exists_congr fun name => and_congr_right fun _ => ?_
  rw [Option.bind_eq_some_iff]
  constructor
  · rintro ⟨json, found, spelled⟩
    cases json <;> cases spelled
    exact found
  · exact fun found => ⟨_, found, rfl⟩

def Untagged (text : String) : Prop :=
  ∀ x, TaggedAddress.decode text = .ok x → x.tag = none

theorem untagged_of_account {text : String} {account : AccountId}
    (h : AccountId.ofJson (.string text) = .ok account) : Untagged text :=
  fun _ read => AccountId.tag_eq_none_of_ofText h read

theorem untagged_amount {json : Json} {amount : Amount} (h : Amount.ofJson json = .ok amount)
    {text : String} (member : text ∈ memberTexts ["issuer"] json) : Untagged text := by
  obtain ⟨_, named, found⟩ := mem_memberTexts.mp member
  obtain rfl := List.mem_singleton.mp named
  unfold Amount.ofJson at h
  split at h
  · cases found
  · split at h
    · rename_i issuer_json _ _ issuer
      rw [found] at issuer
      cases issuer
      obtain ⟨_, -, h⟩ := bind_eq_ok.mp h
      obtain ⟨_, -, h⟩ := bind_eq_ok.mp h
      obtain ⟨account, built, -⟩ := bind_eq_ok.mp h
      exact untagged_of_account built
    · cases h
  · cases h

theorem untagged_asset {json : Json} {asset : Asset} (h : Asset.ofJson json = .ok asset)
    {text : String} (member : text ∈ assetTexts json) : Untagged text := by
  unfold assetTexts at member
  split at member
  · cases member
  rename_i no_token
  obtain ⟨_, named, found⟩ := mem_memberTexts.mp member
  obtain rfl := List.mem_singleton.mp named
  unfold Asset.ofJson at h
  split at h
  · split at h
    · rename_i token
      simp [token] at no_token
    · split at h
      · obtain ⟨currency, -, h⟩ := bind_eq_ok.mp h
        rw [found] at h
        unfold Asset.ofCurrency at h
        split at h
        · cases ‹some _ = none›
        · cases h
        · rename_i issuer
          cases issuer
          obtain ⟨account, built, -⟩ := bind_eq_ok.mp h
          exact untagged_of_account built
        · cases h
      · cases h
  · cases h

theorem untagged_step {json : Json} {step : PathStep} (h : PathStep.ofJson json = .ok step)
    {text : String} (member : text ∈ memberTexts ["account", "issuer"] json) : Untagged text := by
  obtain ⟨name, named, found⟩ := mem_memberTexts.mp member
  unfold PathStep.ofJson at h
  split at h
  · obtain ⟨account, account_read, h⟩ := bind_eq_ok.mp h
    obtain ⟨currency, -, h⟩ := bind_eq_ok.mp h
    obtain ⟨issuer, issuer_read, -⟩ := bind_eq_ok.mp h
    rcases List.mem_cons.mp named with rfl | named
    · rw [PathStep.member, found] at account_read
      obtain ⟨_, built, -⟩ := map_eq_ok.mp account_read
      exact untagged_of_account built
    · obtain rfl := List.mem_singleton.mp named
      rw [PathStep.member, found] at issuer_read
      obtain ⟨_, built, -⟩ := map_eq_ok.mp issuer_read
      exact untagged_of_account built
  · cases h

theorem untagged_paths {json : Json} {set : PathSet} (h : PathSet.ofJson json = .ok set)
    {text : String} (member : text ∈ accountTexts .paths json) : Untagged text := by
  cases json with
  | array paths =>
    obtain ⟨path, in_paths, member⟩ := List.mem_flatMap.mp member
    obtain ⟨built, each, -⟩ := bind_eq_ok.mp h
    obtain ⟨steps, -, made⟩ := exists_right_of_mem (mapM_eq_ok.mp each) in_paths
    cases path with
    | array items =>
      obtain ⟨step, in_items, member⟩ := List.mem_flatMap.mp member
      obtain ⟨_, -, made⟩ := exists_right_of_mem (mapM_eq_ok.mp made) in_items
      exact untagged_step made member
    | _ => cases member
  | _ => cases member

theorem untagged_bridge {json : Json} {bridge : Bridge} (h : Bridge.ofJson json = .ok bridge)
    {text : String} (member : text ∈ accountTexts .bridge json) : Untagged text := by
  have read_member {name : String} {value found : Json} (h : Bridge.member name json = .ok value)
      (present : json.get? name = some found) : value = found := by
    rw [Bridge.member, present] at h
    exact (Except.ok.inj h).symm
  unfold Bridge.ofJson at h
  split at h
  · obtain ⟨door, door_member, h⟩ := bind_eq_ok.mp h
    obtain ⟨_, door_read, h⟩ := bind_eq_ok.mp h
    obtain ⟨asset, asset_member, h⟩ := bind_eq_ok.mp h
    obtain ⟨_, asset_read, h⟩ := bind_eq_ok.mp h
    obtain ⟨door', door_member', h⟩ := bind_eq_ok.mp h
    obtain ⟨_, door_read', h⟩ := bind_eq_ok.mp h
    obtain ⟨asset', asset_member', h⟩ := bind_eq_ok.mp h
    obtain ⟨_, asset_read', -⟩ := bind_eq_ok.mp h
    rcases List.mem_append.mp member with member | member
    · obtain ⟨name, named, found⟩ := mem_memberTexts.mp member
      rcases List.mem_cons.mp named with rfl | named
      · obtain rfl := read_member door_member found
        exact untagged_of_account door_read
      · obtain rfl := List.mem_singleton.mp named
        obtain rfl := read_member door_member' found
        exact untagged_of_account door_read'
    · obtain ⟨part, in_parts, member⟩ := List.mem_flatMap.mp member
      obtain ⟨name, named, found⟩ := List.mem_filterMap.mp in_parts
      rcases List.mem_cons.mp named with rfl | named
      · obtain rfl := read_member asset_member found
        exact untagged_asset asset_read member
      · obtain rfl := List.mem_singleton.mp named
        obtain rfl := read_member asset_member' found
        exact untagged_asset asset_read' member
  · cases h

theorem untagged_leaf {type : LeafType} {json : Json} {leaf : Leaf}
    (h : Leaf.ofJson type json = .ok leaf) {text : String}
    (member : text ∈ accountTexts type json) : Untagged text := by
  cases type with
  | amount =>
    obtain ⟨_, built, -⟩ := map_eq_ok.mp h
    exact untagged_amount built member
  | asset =>
    obtain ⟨_, built, -⟩ := map_eq_ok.mp h
    exact untagged_asset built member
  | paths =>
    obtain ⟨_, built, -⟩ := map_eq_ok.mp h
    exact untagged_paths built member
  | bridge =>
    obtain ⟨_, built, -⟩ := map_eq_ok.mp h
    exact untagged_bridge built member
  | _ => cases member

theorem container_of_mem_accountTexts {type : LeafType} {json : Json} {text : String}
    (member : text ∈ accountTexts type json) : ¬ json.IsAtom ∧ json ≠ .null := by
  have no_texts (names : List String) (plain : ∀ name, json.get? name = none) :
      memberTexts names json = [] := by
    simp [memberTexts, plain]
  have no_members (plain : ∀ name, json.get? name = none)
      (no_array : ∀ items, json ≠ .array items) : accountTexts type json = [] := by
    cases type with
    | amount => exact no_texts _ plain
    | asset => simp [accountTexts, assetTexts, no_texts _ plain]
    | bridge => simp [accountTexts, no_texts _ plain, plain]
    | paths =>
      cases json with
      | array items => exact absurd rfl (no_array items)
      | _ => rfl
    | _ => rfl
  constructor
  · rintro (⟨text, rfl⟩ | ⟨number, rfl⟩)
    · rw [no_members (fun _ => rfl) nofun] at member
      cases member
    · rw [no_members (fun _ => rfl) nofun] at member
      cases member
  · rintro rfl
    rw [no_members (fun _ => rfl) nofun] at member
    cases member

theorem untagged_member {members : List (String × Json)} {bytes : Bytes}
    (distinct : DistinctNames members)
    (accepted : registry.fieldBytes false (.object members) = .ok bytes) {name : String}
    {json : Json} {type : LeafType} (in_members : (name, json) ∈ members)
    (typed : registry.memberType? name = some (.leaf type)) {text : String}
    (member : text ∈ accountTexts type json) : Untagged text := by
  obtain ⟨container, not_null⟩ := container_of_mem_accountTexts member
  obtain ⟨_, expanded, parts, object, expansion, each, -⟩ := registry.fieldBytes_eq_ok.mp accepted
  cases object
  obtain ⟨field, in_wire, field_type⟩ :=
    mem_wireMembers_of_container expansion distinct in_members container not_null typed
  obtain ⟨part, -, made⟩ := exists_right_of_mem each in_wire
  obtain ⟨value, -, built, -⟩ := value_of_memberBytes made
  rw [valueOf_leaf field_type] at built
  obtain ⟨leaf, leaf_built, -⟩ := map_eq_ok.mp built
  have wide : type ≠ .unsigned .eight := by
    rintro rfl
    cases member
  rw [leafOf, if_neg fun h => wide h.1] at leaf_built
  · exact untagged_leaf leaf_built member
  · rintro _ spelled _ rfl
    exact container (.inl ⟨spelled, rfl⟩)

def tagBeside : List (String × Json) :=
  [("DestinationTag", .number (.integer 7)), ("Destination", .string "rrrrrrrrrrrrrrrrrrrrrhoLvTp")]

def tagWithin : List (String × Json) :=
  [("Destination", .string (TaggedAddress.encode ⟨.zero, some 7, .main⟩))]

theorem checked_tagBeside :
    AccountId.ofClassic "rrrrrrrrrrrrrrrrrrrrrhoLvTp" = .ok .zero ∧ ∃ tag destination : Field,
    (∀ signingOnly, bundled.wireField? signingOnly "DestinationTag" = some tag ∧
      bundled.wireField? signingOnly "Destination" = some destination) ∧
    tag.ordinal ≤ destination.ordinal ∧
    bundled.memberBytes false tag (.number (.integer 7)) = .ok [0x2E, 0, 0, 0, 7] ∧
    bundled.memberBytes false destination (.string "rrrrrrrrrrrrrrrrrrrrrhoLvTp") =
      .ok (0x83 :: 0x14 :: List.replicate 20 0) := by
  rw [bundled_eq]
  exact ⟨by decide +kernel, ⟨"DestinationTag", 14, false, true, true, "UInt32", 2⟩,
    ⟨"Destination", 3, true, true, true, "AccountID", 8⟩, by decide +kernel⟩

theorem packed_tagBeside :
    Packed tagBeside tagWithin "Destination" "DestinationTag" ⟨.zero, some 7, .main⟩ where
  distinct := by decide
  packed_distinct := by decide
  paired := rfl
  classic := ⟨_, rfl, checked_tagBeside.1⟩
  address := rfl
  tag := .removed (by decide)
  others := by
    intro name other
    simp only [List.mem_cons, List.not_mem_nil, or_false, not_or] at other
    simp [tagBeside, tagWithin, List.lookup_cons, beq_eq_false_iff_ne.mpr other.1,
      beq_eq_false_iff_ne.mpr other.2]

theorem level_tagWithin {level : List (String × Json)} (inside : bundled.Level tagWithin level) :
    level = tagWithin := by
  induction inside with
  | refl => rfl
  | tail _ nested ih =>
    subst ih
    cases nested with
    | object member => simp [tagWithin] at member
    | element member => simp [tagWithin] at member

/-- Packing accounts with their tags into tagged addresses, at any objects inside an object and any
number of times, changes no bytes. Conversely, a tag is accepted only in the address of an account
or a destination, where it stands among the bytes of the object, and no account inside another value
carries one. -/
theorem tagged_addresses_transparent :
    (∀ members packed, Relation.ReflTransGen bundled.Repacks members packed →
      (∀ bytes, bundled.encode (.object members) = .ok bytes →
        bundled.encode (.object packed) = .ok bytes) ∧
      (∀ bytes, bundled.encodeForSigning (.object members) = .ok bytes →
        bundled.encodeForSigning (.object packed) = .ok bytes)) ∧
    (∀ members bytes, (∀ level, bundled.Level members level → DistinctNames level) →
      bundled.encode (.object members) = .ok bytes →
      ∀ level, bundled.Level members level →
        (∀ name text x tag, (name, .string text) ∈ level → TaggedAddress.decode text = .ok x →
          x.tag = some tag →
          ∃ entries body tagName field header, bundled.Written level entries ∧
            body = (entries.map Prod.snd).flatten ∧
            bundled.encode (.object level) = .ok body ∧ body <:+: bytes ∧
            tagMember? name = some tagName ∧ bundled.field? tagName = some field ∧
            field.header? = some header ∧
            (field, header.encode ++ beBytes 4 tag.toNat) ∈ entries) ∧
        (∀ name json type, (name, json) ∈ level →
          bundled.memberType? name = some (.leaf type) →
          ∀ text ∈ accountTexts type json, ∀ x, TaggedAddress.decode text = .ok x →
            x.tag = none)) := by
  refine ⟨fun members packed steps => ?_, fun members bytes distinct accepted level inside => ?_⟩
  · have kept {signingOnly : Bool} {bytes : Bytes}
        (accepted : bundled.fieldBytes signingOnly (.object members) = .ok bytes) :
        bundled.fieldBytes signingOnly (.object packed) = .ok bytes := by
      -- Signing and encoding differ in the fields that are written; a step keeps the bytes of both.
      induction steps with
      | refl => exact accepted
      | tail _ step ih => exact fieldBytes_of_repacks bundled_lawful step ih
    refine ⟨fun bytes accepted => kept accepted, fun bytes accepted => ?_⟩
    obtain ⟨body, made, rest⟩ := bind_eq_ok.mp accepted
    exact bind_eq_ok.mpr ⟨body, kept made, rest⟩
  · obtain ⟨body, made, infix_of⟩ := fieldBytes_of_level bundled_lawful distinct accepted inside
    have level_distinct := distinct level inside
    constructor
    · intro name text x tag member read tagged
      obtain ⟨entries, written, rfl⟩ := exists_written made
      obtain ⟨tagName, field, header, paired, on_wire, coded, entry⟩ :=
        written_tag bundled_lawful level_distinct written member read tagged
      exact ⟨entries, _, tagName, field, header, written, rfl, made, infix_of, paired,
        (wireField?_eq_some on_wire).1, coded, entry⟩
    · intro name json type in_level typed text member
      exact untagged_member level_distinct made in_level typed member

/-- A destination with a tag in its address is encoded and signed as with the tag beside it. -/
theorem tagged_addresses_transparent_destination :
    bundled.encode (.object tagWithin) =
        .ok ([0x2E, 0, 0, 0, 7, 0x83, 0x14] ++ List.replicate 20 0) ∧
      bundled.encodeForSigning (.object tagWithin) =
        .ok ([0x53, 0x54, 0x58, 0x00, 0x2E, 0, 0, 0, 7, 0x83, 0x14] ++ List.replicate 20 0) ∧
      ∃ entries field header, bundled.Written tagWithin entries ∧
        bundled.field? "DestinationTag" = some field ∧ field.header? = some header ∧
        (field, header.encode ++ [0, 0, 0, 7]) ∈ entries := by
  obtain ⟨classic, tag, destination, found, below, made_tag, made⟩ := checked_tagBeside
  have expansion : expandAddresses tagBeside = .ok tagBeside := by
    refine expandAddresses_of_plain fun name text member x read => ?_
    obtain ⟨-, rfl⟩ : name = "Destination" ∧ text = "rrrrrrrrrrrrrrrrrrrrrhoLvTp" := by
      simpa [tagBeside] using member
    exact plain_of_ofClassic classic x read
  have beside (signingOnly : Bool) := fieldBytes_pair expansion (found signingOnly).1
    (found signingOnly).2 below made_tag made
  obtain ⟨transparent, accepts⟩ := tagged_addresses_transparent
  obtain ⟨encoded, signed⟩ := transparent _ _ (.single (.here packed_tagBeside))
  have within := encoded _ (beside false)
  have within_signed := signed _ (bind_eq_ok.mpr ⟨_, beside true, rfl⟩)
  have distinct (level : List (String × Json)) (inside : bundled.Level tagWithin level) :
      DistinctNames level := by
    rw [level_tagWithin inside]
    decide
  obtain ⟨entries, _, tagName, field, header, written, -, -, -, paired, known, coded, entry⟩ :=
    (accepts _ _ distinct within _ .refl).1 _ _ _ 7 (List.mem_singleton.mpr rfl)
      (TaggedAddress.decode_encode _) rfl
  cases paired
  exact ⟨within, within_signed, entries, field, header, written, known, coded, entry⟩

end LedgerWire.Registry
