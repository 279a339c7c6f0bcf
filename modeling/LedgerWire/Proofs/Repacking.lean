import LedgerWire.Proofs.Address
import LedgerWire.Proofs.Levels
import LedgerWire.Proofs.WireOrder
import LedgerWire.Signing

namespace LedgerWire

/-- How the member of a tag changes when the tag is packed into an address: it stays, is taken out,
or is set to null. -/
inductive TagPacked : Option UInt32 → Option Json → Option Json → Prop
  | untagged : TagPacked none none none
  | kept {tag : UInt32} {explicit : Json} : tagAgrees tag explicit = true →
      TagPacked (some tag) (some explicit) (some explicit)
  | removed {tag : UInt32} {explicit : Json} : tagAgrees tag explicit = true →
      TagPacked (some tag) (some explicit) none
  | nulled {tag : UInt32} {explicit : Json} : tagAgrees tag explicit = true →
      TagPacked (some tag) (some explicit) (some .null)

/-- Nothing but the members of the given names changes. -/
def SameExcept (names : List String) (members others : List (String × Json)) : Prop :=
  ∀ name, name ∉ names → others.lookup name = members.lookup name

/-- The members of one object before and after an account and its tag are packed. -/
structure Packed (members packed : List (String × Json)) (name tagName : String)
    (x : TaggedAddress) : Prop where
  distinct : DistinctNames members
  packed_distinct : DistinctNames packed
  paired : tagMember? name = some tagName
  classic : ∃ text, members.lookup name = some (.string text) ∧
    AccountId.ofClassic text = .ok x.account
  address : packed.lookup name = some (.string x.encode)
  tag : TagPacked x.tag (members.lookup tagName) (packed.lookup tagName)
  others : SameExcept [name, tagName] members packed

namespace Registry
variable (registry : Registry)

/-- At one object, however deep, the classic address of an account and its tag are packed into a
tagged address. -/
inductive Repacks : List (String × Json) → List (String × Json) → Prop
  | here {members packed : List (String × Json)} {name tagName : String} {x : TaggedAddress} :
      Packed members packed name tagName x → Repacks members packed
  | object {members packed inner inner_packed : List (String × Json)} {name : String} :
      DistinctNames members → DistinctNames packed → registry.memberType? name = some .object →
      members.lookup name = some (.object inner) → Repacks inner inner_packed →
      packed.lookup name = some (.object inner_packed) → SameExcept [name] members packed →
      Repacks members packed
  | element {members packed inner inner_packed : List (String × Json)} {name element : String}
      {front back : List Json} :
      DistinctNames members → DistinctNames packed → registry.memberType? name = some .array →
      members.lookup name = some (.array (front ++ .object [(element, .object inner)] :: back)) →
      Repacks inner inner_packed →
      packed.lookup name =
        some (.array (front ++ .object [(element, .object inner_packed)] :: back)) →
      SameExcept [name] members packed → Repacks members packed

end Registry

section Expansion
variable {members others : List (String × Json)}

theorem Expands.congr {name : String} {value : Json} {part : List (String × Json)}
    (h : Expands members name value part)
    (tag : ∀ tagName, tagMember? name = some tagName →
      others.lookup tagName = members.lookup tagName) : Expands others name value part :=
  expands_of_addressEdits ((addressEdits_congr tag).trans (addressEdits_of_expands h))

theorem moves_congr {tagName : String} {tag : UInt32}
    (same : ∀ name, tagMember? name = some tagName →
      others.lookup name = members.lookup name ∧
        others.lookup tagName = members.lookup tagName) :
    Moves others tagName tag ↔ Moves members tagName tag := by
  constructor
  · rintro ⟨⟨name, text, x, paired, found, read, tagged⟩, free⟩
    obtain ⟨same_account, same_tag⟩ := same name paired
    rw [same_account] at found
    rw [same_tag] at free
    exact ⟨⟨name, text, x, paired, found, read, tagged⟩, free⟩
  · rintro ⟨⟨name, text, x, paired, found, read, tagged⟩, free⟩
    obtain ⟨same_account, same_tag⟩ := same name paired
    rw [← same_account] at found
    rw [← same_tag] at free
    exact ⟨⟨name, text, x, paired, found, read, tagged⟩, free⟩

theorem lookup_expanded_congr {expanded others_expanded : List (String × Json)} {name : String}
    (distinct : DistinctNames members) (others_distinct : DistinctNames others)
    (expansion : expandAddresses members = .ok expanded)
    (others_expansion : expandAddresses others = .ok others_expanded)
    (moves : ∀ tag, Moves others name tag ↔ Moves members name tag)
    (same : (others.lookup name).map Json.classic = (members.lookup name).map Json.classic) :
    others_expanded.lookup name = expanded.lookup name := by
  by_cases moved : ∃ tag, Moves members name tag
  · obtain ⟨tag, moved⟩ := moved
    rw [lookup_expanded_of_moves expansion distinct moved,
      lookup_expanded_of_moves others_expansion others_distinct ((moves tag).mpr moved)]
  · rw [lookup_expanded expansion distinct fun tag is_moved => moved ⟨tag, is_moved⟩,
      lookup_expanded others_expansion others_distinct fun tag is_moved =>
        moved ⟨tag, (moves tag).mp is_moved⟩, same]

end Expansion

theorem tagName_ne_account {name tagName other otherTag : String}
    (paired : tagMember? name = some tagName) (other_paired : tagMember? other = some otherTag) :
    tagName ≠ other := by
  rcases tagMember?_eq_some paired with ⟨-, rfl⟩ | ⟨-, rfl⟩ <;>
    rcases tagMember?_eq_some other_paired with ⟨rfl, -⟩ | ⟨rfl, -⟩ <;> decide

theorem plain_of_ofClassic {text : String} {account : AccountId}
    (h : AccountId.ofClassic text = .ok account) (x : TaggedAddress) :
    TaggedAddress.decode text ≠ .ok x := by
  rw [AccountId.eq_address_of_ofClassic h]
  exact account.decode_address_ne_ok x

namespace Packed
variable {members packed : List (String × Json)} {name tagName : String} {x : TaggedAddress}

theorem same (h : Packed members packed name tagName x) {other : String} (not_name : other ≠ name)
    (not_tag : other ≠ tagName) : packed.lookup other = members.lookup other :=
  h.others other (by simp [not_name, not_tag])

theorem same_tag (h : Packed members packed name tagName x) {other otherTag : String}
    (paired : tagMember? other = some otherTag) (not_name : other ≠ name) :
    packed.lookup otherTag = members.lookup otherTag := by
  apply h.same (tagName_ne_account paired h.paired)
  rintro rfl
  exact not_name (tagMember?_inj paired h.paired)

theorem same_account (h : Packed members packed name tagName x) {other otherTag : String}
    (paired : tagMember? other = some otherTag) (not_tag : otherTag ≠ tagName) :
    packed.lookup other = members.lookup other := by
  apply h.same
  · rintro rfl
    rw [h.paired] at paired
    exact not_tag (Option.some.inj paired).symm
  · exact (tagName_ne_account h.paired paired).symm

theorem expands (h : Packed members packed name tagName x) {expanded : List (String × Json)}
    (expansion : expandAddresses members = .ok expanded) {other : String} {value : Json}
    (member : (other, value) ∈ packed) : ∃ part, Expands packed other value part := by
  have read := x.decode_encode
  have found := lookup_of_mem h.packed_distinct member
  have tag := h.tag
  generalize before : members.lookup tagName = old at tag
  generalize after : packed.lookup tagName = new at tag
  by_cases is_name : other = name
  · subst is_name
    rw [h.address] at found
    cases found
    cases tagged : x.tag with
    | none => exact ⟨_, .untagged read tagged⟩
    | some number =>
      rw [tagged] at tag
      cases tag with
      | kept agrees => exact ⟨_, .agreed read tagged h.paired after agrees⟩
      | removed => exact ⟨_, .moved read tagged h.paired (.inl after)⟩
      | nulled => exact ⟨_, .moved read tagged h.paired (.inr after)⟩
  by_cases is_tag : other = tagName
  · subst is_tag
    rw [after] at found
    generalize x.tag = packed_tag at tag
    cases tag with
    | kept =>
      cases found
      obtain ⟨part, expands⟩ := expands_of_mem expansion (mem_of_lookup before)
      exact ⟨part, expands.congr fun _ paired => absurd rfl (tagName_ne_account h.paired paired)⟩
    | nulled =>
      cases found
      exact ⟨_, .plain nofun⟩
    | _ => cases found
  · rw [h.same is_name is_tag] at found
    obtain ⟨part, expands⟩ := expands_of_mem expansion (mem_of_lookup found)
    exact ⟨part, expands.congr fun _ paired => h.same_tag paired is_name⟩

theorem moves_iff (h : Packed members packed name tagName x) {other : String} {tag : UInt32}
    (not_tag : other ≠ tagName) : Moves packed other tag ↔ Moves members other tag := by
  refine moves_congr fun account paired => ⟨h.same_account paired not_tag, h.same_tag paired ?_⟩
  rintro rfl
  rw [h.paired] at paired
  exact not_tag (Option.some.inj paired).symm

theorem lookup_expanded (h : Packed members packed name tagName x)
    {expanded packed_expanded : List (String × Json)}
    (expansion : expandAddresses members = .ok expanded)
    (packed_expansion : expandAddresses packed = .ok packed_expanded) {other : String}
    (not_tag : other ≠ tagName) : packed_expanded.lookup other = expanded.lookup other := by
  refine lookup_expanded_congr h.distinct h.packed_distinct expansion packed_expansion
    (fun _ => h.moves_iff not_tag) ?_
  by_cases is_name : other = name
  · -- The tagged address is expanded to the classic one, which is left as it stands.
    obtain ⟨text, found, classic⟩ := h.classic
    have plain : (Json.string text).classic = .string text := by
      apply Json.classic_of_plain
      rintro _ y ⟨⟩
      exact plain_of_ofClassic classic y
    rw [is_name, h.address, found, Option.map_some, Option.map_some, plain,
      AccountId.eq_address_of_ofClassic classic, Json.classic, x.decode_encode]
    rfl
  · rw [h.same is_name not_tag]

theorem stays (h : Packed members packed name tagName x) (tag : UInt32) :
    ¬ Moves members tagName tag := by
  obtain ⟨text, found, classic⟩ := h.classic
  rintro ⟨⟨account, text', y, paired, found', read, -⟩, -⟩
  obtain rfl := tagMember?_inj paired h.paired
  rw [found] at found'
  cases found'
  exact plain_of_ofClassic classic y read

theorem moves_packed_iff (h : Packed members packed name tagName x) {tag : UInt32} :
    Moves packed tagName tag ↔
      x.tag = some tag ∧ (packed.lookup tagName = none ∨ packed.lookup tagName = some .null) := by
  constructor
  · rintro ⟨⟨account, text, y, paired, found, read, tagged⟩, free⟩
    obtain rfl := tagMember?_inj paired h.paired
    rw [h.address] at found
    cases found
    rw [x.decode_encode] at read
    cases read
    exact ⟨tagged, free⟩
  · rintro ⟨tagged, free⟩
    exact ⟨⟨name, x.encode, x, h.paired, h.address, x.decode_encode, tagged⟩, free⟩

theorem lookup_tag (h : Packed members packed name tagName x)
    {expanded packed_expanded : List (String × Json)}
    (expansion : expandAddresses members = .ok expanded)
    (packed_expansion : expandAddresses packed = .ok packed_expanded) :
    packed_expanded.lookup tagName = expanded.lookup tagName ∨
      ∃ tag explicit, tagAgrees tag explicit = true ∧
        expanded.lookup tagName = some explicit.classic ∧
        packed_expanded.lookup tagName = some (.ofNat tag.toNat) := by
  have before := LedgerWire.lookup_expanded expansion h.distinct h.stays
  have moved {tag : UInt32} (moves : Moves packed tagName tag) :=
    lookup_expanded_of_moves packed_expansion h.packed_distinct moves
  have kept (stays : ∀ tag, ¬ Moves packed tagName tag) :=
    LedgerWire.lookup_expanded packed_expansion h.packed_distinct stays
  simp only [h.moves_packed_iff] at moved kept
  have tag := h.tag
  generalize members.lookup tagName = old at tag before
  generalize packed.lookup tagName = new at tag moved kept
  generalize x.tag = packed_tag at tag moved kept
  cases tag with
  | untagged =>
    left
    rw [before, kept nofun]
  | kept agrees =>
    left
    rw [before, kept]
    rintro tag ⟨-, missing | null⟩
    · cases missing
    · cases null
      cases agrees
  | @removed tag explicit agrees =>
    exact .inr ⟨tag, explicit, agrees, before, moved ⟨rfl, .inl rfl⟩⟩
  | @nulled tag explicit agrees =>
    exact .inr ⟨tag, explicit, agrees, before, moved ⟨rfl, .inr rfl⟩⟩

end Packed

namespace Registry
variable {registry : Registry}

theorem Lawful.tag_field (lawful : registry.Lawful) {signingOnly : Bool} {name tagName : String}
    {field : Field} (paired : tagMember? name = some tagName)
    (found : registry.wireField? signingOnly tagName = some field) :
    field.wireType? = some (.leaf (.unsigned .four)) ∧ Enumeration.ofName? field.name = none := by
  obtain ⟨-, -, rfl⟩ := wireField?_eq_some found
  refine ⟨typed_of_carries lawful (known_of_wireField? found).listed
    (lawful.accounts name _ paired).2, ?_⟩
  rcases tagMember?_eq_some paired with ⟨-, named⟩ | ⟨-, named⟩ <;> rw [named] <;> decide

theorem isDigits_address (account : AccountId) : Text.isDigits account.address.toList = false := by
  obtain ⟨rest, spelled⟩ := account.toList_address
  rw [spelled]
  simp [Text.isDigits, Char.isDigit]

theorem tagOfText?_of_isDigits {text : String} (digits : Text.isDigits text.toList = true) :
    tagOfText? text = if Text.natOfDigits text.toList < capacity 4 then
      some (UInt32.ofNat (Text.natOfDigits text.toList)) else none := by
  unfold tagOfText?
  split
  · rename_i rest spelled
    rw [spelled] at digits
    simp [Text.isDigits, Char.isDigit] at digits
  · simp [digits]

theorem ofNat_of_tagOfText {text : String} {tag : UInt32} {u : Unsigned}
    (agrees : tagOfText? text = some tag) (built : Unsigned.ofDigits .four text = .ok u) :
    Unsigned.ofNat .four tag.toNat = .ok u := by
  simp only [Unsigned.ofDigits] at built
  split at built
  · cases built
  rename_i digits
  split at built
  · rw [tagOfText?_of_isDigits (by simpa using digits)] at agrees
    split at agrees
    · rename_i fits
      cases agrees
      rw [UInt32.toNat_ofNat', Nat.mod_eq_of_lt (by simpa [capacity] using fits)]
      exact built
    · cases agrees
  · cases built

theorem leafOf_tag {field : Field} {tag : UInt32} {explicit : Json} {leaf : Leaf}
    (unnamed : Enumeration.ofName? field.name = none) (agrees : tagAgrees tag explicit = true)
    (built : registry.leafOf field (.unsigned .four) explicit.classic = .ok leaf) :
    registry.leafOf field (.unsigned .four) (.ofNat tag.toNat) = .ok leaf := by
  have plain (json : Json) : registry.leafOf field (.unsigned .four) json =
      (Unsigned.ofJson .four json).map .unsigned := by
    simp [leafOf, unnamed, Leaf.ofJson]
  rw [plain] at built ⊢
  obtain ⟨u, read, rfl⟩ := map_eq_ok.mp built
  refine map_eq_ok.mpr ⟨u, ?_, rfl⟩
  unfold tagAgrees at agrees
  split at agrees
  · rename_i n
    rw [beq_iff_eq.mp agrees] at read
    exact read
  · rename_i text
    rw [beq_iff_eq] at agrees
    refine ofNat_of_tagOfText agrees ?_
    simp only [Json.classic] at read
    split at read
    · rename_i y _
      have refused : Unsigned.ofJson .four (.string y.classic) =
          .error (.malformed Width.four.typeName (.notDigits y.classic)) := by
        simp [Unsigned.ofJson, Unsigned.ofDigits, TaggedAddress.classic, isDigits_address]
      rw [refused] at read
      cases read
    · exact read
  · cases agrees

theorem fieldBytes_of_packed (lawful : registry.Lawful) {signingOnly : Bool}
    {members packed : List (String × Json)} {name tagName : String} {x : TaggedAddress}
    {bytes : Bytes} (h : Packed members packed name tagName x)
    (accepted : registry.fieldBytes signingOnly (.object members) = .ok bytes) :
    registry.fieldBytes signingOnly (.object packed) = .ok bytes := by
  obtain ⟨_, expanded, -, object, expansion, -⟩ := registry.fieldBytes_eq_ok.mp accepted
  cases object
  obtain ⟨packed_expanded, packed_expansion⟩ :=
    expandAddresses_of_expands fun member in_packed => h.expands expansion in_packed
  rw [fieldBytes_congr lawful.coherent h.distinct h.packed_distinct expansion packed_expansion,
    accepted]
  · have type : "TransactionType" ≠ tagName := by
      rcases tagMember?_eq_some h.paired with ⟨-, rfl⟩ | ⟨-, rfl⟩ <;> decide
    rw [emptiesAccount, emptiesAccount, h.lookup_expanded expansion packed_expansion type]
  · intro other field found
    by_cases is_tag : other = tagName
    · subst is_tag
      rcases h.lookup_tag expansion packed_expansion with same | ⟨tag, explicit, agrees, old, new⟩
      · rw [same]
      · obtain ⟨typed, unnamed⟩ := lawful.tag_field h.paired found
        obtain ⟨part, made⟩ := memberBytes_of_lookup expansion accepted found old
        rw [old, new, Option.map_some, Option.map_some]
        obtain ⟨value, written, built, -⟩ := value_of_memberBytes made
        rw [valueOf_leaf typed] at built
        obtain ⟨leaf, leaf_built, rfl⟩ := map_eq_ok.mp built
        have packed_built := leafOf_tag unnamed agrees leaf_built
        simp only [memberBytes, valueOf_leaf typed, leaf_built, packed_built]
    · rw [h.lookup_expanded expansion packed_expansion is_tag]

structure Replaced (registry : Registry) (members others : List (String × Json)) (name : String)
    (json json' : Json) : Prop where
  distinct : DistinctNames members
  others_distinct : DistinctNames others
  container : ∀ type, registry.memberType? name ≠ some (.leaf type)
  old : members.lookup name = some json
  new : others.lookup name = some json'
  old_container : ¬ json.IsAtom ∧ json ≠ .null
  new_container : ¬ json'.IsAtom ∧ json' ≠ .null
  same : SameExcept [name] members others

namespace Replaced
variable {members others : List (String × Json)} {name : String} {json json' : Json}

theorem classic_container (h : ¬ json.IsAtom) : json.classic = json := by
  apply Json.classic_of_plain
  rintro text _ rfl
  exact absurd (.inl ⟨text, rfl⟩) h

theorem same_of_carries (h : Replaced registry members others name json json') {other : String}
    {type : LeafType} (carried : registry.carries other (.leaf type) = true) :
    others.lookup other = members.lookup other := by
  apply h.same
  rintro member
  obtain rfl := List.mem_singleton.mp member
  exact h.container type (memberType?_of_carries carried)

theorem moves_iff (lawful : registry.Lawful)
    (h : Replaced registry members others name json json') {other : String} {tag : UInt32} :
    Moves others other tag ↔ Moves members other tag := by
  refine moves_congr fun account paired => ?_
  obtain ⟨account_carried, tag_carried⟩ := lawful.accounts account other paired
  exact ⟨h.same_of_carries account_carried, h.same_of_carries tag_carried⟩

theorem not_moves (lawful : registry.Lawful)
    (h : Replaced registry members others name json json') (all : List (String × Json))
    (tag : UInt32) : ¬ Moves all name tag := by
  rintro ⟨⟨account, _, _, paired, -⟩, -⟩
  exact h.container _ (memberType?_of_carries (lawful.accounts account name paired).2)

theorem lookup_expanded (lawful : registry.Lawful)
    (h : Replaced registry members others name json json')
    {expanded others_expanded : List (String × Json)}
    (expansion : expandAddresses members = .ok expanded)
    (others_expansion : expandAddresses others = .ok others_expanded) :
    expanded.lookup name = some json ∧ others_expanded.lookup name = some json' ∧
      SameExcept [name] expanded others_expanded := by
  refine ⟨?_, ?_, fun other not_name => ?_⟩
  · rw [LedgerWire.lookup_expanded expansion h.distinct (h.not_moves lawful _), h.old,
      Option.map_some, classic_container h.old_container.1]
  · rw [LedgerWire.lookup_expanded others_expansion h.others_distinct (h.not_moves lawful _),
      h.new, Option.map_some, classic_container h.new_container.1]
  · exact lookup_expanded_congr h.distinct h.others_distinct expansion others_expansion
      (fun _ => h.moves_iff lawful) (by rw [h.same other not_name])

theorem expand (lawful : registry.Lawful)
    (h : Replaced registry members others name json json') {expanded : List (String × Json)}
    (expansion : expandAddresses members = .ok expanded) :
    ∃ others_expanded, expandAddresses others = .ok others_expanded := by
  apply expandAddresses_of_expands
  rintro ⟨other, value⟩ member
  have found := lookup_of_mem h.others_distinct member
  by_cases is_name : other = name
  · subst is_name
    rw [h.new] at found
    cases found
    refine ⟨_, .plain ?_⟩
    rintro text _ rfl
    exact absurd (.inl ⟨text, rfl⟩) h.new_container.1
  · rw [h.same other (by simpa using is_name)] at found
    obtain ⟨part, expands⟩ := expands_of_mem expansion (mem_of_lookup found)
    exact ⟨part, expands.congr fun tagName paired =>
      h.same_of_carries (lawful.accounts other tagName paired).2⟩

theorem fieldBytes (lawful : registry.Lawful)
    (h : Replaced registry members others name json json') {signingOnly : Bool} {bytes : Bytes}
    (same_value : ∀ field value, registry.wireField? signingOnly name = some field →
      registry.valueOf field json = .ok value → registry.valueOf field json' = .ok value)
    (accepted : registry.fieldBytes signingOnly (.object members) = .ok bytes) :
    registry.fieldBytes signingOnly (.object others) = .ok bytes := by
  obtain ⟨_, expanded, -, object, expansion, -⟩ := registry.fieldBytes_eq_ok.mp accepted
  cases object
  obtain ⟨others_expanded, others_expansion⟩ := h.expand lawful expansion
  obtain ⟨old, new, same⟩ := h.lookup_expanded lawful expansion others_expansion
  rw [fieldBytes_congr lawful.coherent h.distinct h.others_distinct expansion others_expansion,
    accepted]
  · have type : "TransactionType" ∉ [name] := by
      intro member
      obtain rfl := List.mem_singleton.mp member
      exact h.container _ (memberType?_of_carries lawful.transactionType)
    rw [emptiesAccount, emptiesAccount, same _ type]
  · intro other field found
    by_cases is_name : other = name
    · subst is_name
      obtain ⟨part, made⟩ := memberBytes_of_lookup expansion accepted found old
      obtain ⟨value, -, built, -⟩ := value_of_memberBytes made
      rw [old, new, Option.map_some, Option.map_some, memberBytes, memberBytes, built,
        same_value field value found built]
    · rw [same other (by simpa using is_name)]

end Replaced

theorem fieldBytes_of_repacks (lawful : registry.Lawful) {members packed : List (String × Json)}
    (h : registry.Repacks members packed) {signingOnly : Bool} {bytes : Bytes}
    (accepted : registry.fieldBytes signingOnly (.object members) = .ok bytes) :
    registry.fieldBytes signingOnly (.object packed) = .ok bytes := by
  -- Signatures cover all members of the objects inside, so `signingOnly` changes on the way in.
  induction h generalizing signingOnly bytes with
  | here packed => exact fieldBytes_of_packed lawful packed accepted
  | object distinct others_distinct typed old _ new same ih =>
    have replaced : Replaced registry _ _ _ _ _ :=
      ⟨distinct, others_distinct, by simp [typed], old, new, by simp [Json.IsAtom],
        by simp [Json.IsAtom], same⟩
    refine replaced.fieldBytes lawful (fun field value found built => ?_) accepted
    rw [memberType?, wireField?_false found, Option.bind_some] at typed
    obtain ⟨inner, inner_accepted, rfl⟩ := (valueOf_object_eq_ok typed).mp built
    exact (valueOf_object_eq_ok typed).mpr ⟨inner, ih inner_accepted, rfl⟩
  | element distinct others_distinct typed old _ new same ih =>
    have replaced : Replaced registry _ _ _ _ _ :=
      ⟨distinct, others_distinct, by simp [typed], old, new, by simp [Json.IsAtom],
        by simp [Json.IsAtom], same⟩
    refine replaced.fieldBytes lawful (fun field value found built => ?_) accepted
    rw [memberType?, wireField?_false found, Option.bind_some] at typed
    obtain ⟨_, parts, array, each, rfl⟩ := (valueOf_array_eq_ok typed).mp built
    cases array
    refine (valueOf_array_eq_ok typed).mpr ⟨_, parts, rfl, ?_, rfl⟩
    refine forall₂_replace each fun part made => ?_
    obtain ⟨_, _, field, header, inner, same, unmarked, named, object, coded, inner_accepted,
      rfl⟩ := registry.itemBytes_eq_ok.mp made
    cases same
    exact registry.itemBytes_eq_ok.mpr
      ⟨_, _, field, header, inner, rfl, unmarked, named, object, coded, ih inner_accepted, rfl⟩

end Registry
end LedgerWire
