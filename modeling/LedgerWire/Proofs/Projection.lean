import LedgerWire.Proofs.Decoded
import LedgerWire.Proofs.RoundTrip

namespace LedgerWire

theorem expandAddresses_of_untaggable {members : List (String × Json)}
    (untaggable : ∀ member ∈ members, member.2.Untaggable) :
    expandAddresses members = .ok members :=
  expandAddresses_of_plain fun _ _ member => Json.decode_ne_ok (untaggable _ member) .here

namespace Registry
variable {registry : Registry}

section Stored
variable {members : List (String × Json)}

theorem Stored.expand (stored : registry.Stored members) :
    expandAddresses members = .ok members :=
  expandAddresses_of_untaggable stored.untaggable

theorem Stored.rendered (stored : registry.Stored members) {field : Field} {json : Json}
    (member : (field, json) ∈ registry.wireMembers false members) {type : LeafType}
    (typed : field.wireType? = some (.leaf type)) :
    ∃ leaf : Leaf, leaf.Canonical ∧ leaf.type = type ∧
      registry.render field (.leaf leaf) = .ok json := by
  obtain ⟨name, in_members, found⟩ := mem_wireMembers.mp member
  have member_type : registry.memberType? name = some (.leaf type) :=
    memberType?_eq_some.mpr ⟨field, found, typed⟩
  obtain ⟨field', leaf, found', canonical, typed', rendered⟩ :=
    stored.leaves _ in_members type member_type
  rw [found] at found'
  cases found'
  rw [typed] at typed'
  cases typed'
  exact ⟨leaf, canonical, rfl, rendered⟩

theorem Stored.settled (lawful : registry.Lawful) (stored : registry.Stored members) {field : Field}
    {json : Json} (member : (field, json) ∈ registry.wireMembers false members) {type : LeafType}
    (typed : field.wireType? = some (.leaf type)) {leaf : Leaf}
    (built : registry.leafOf field type json = .ok leaf) : leaf.Settled := by
  obtain ⟨before, canonical, rfl, rendered⟩ := stored.rendered member typed
  exact settled_of_render lawful (known_of_mem_wireMembers member).listed canonical typed rendered
    built

theorem Stored.regular (lawful : registry.Lawful) (stored : registry.Stored members) :
    registry.Regular members := by
  refine ⟨stored.distinct, stored.unmarked,
    fun expanded field json type leaf expansion member => ?_⟩
  rw [stored.expand] at expansion
  cases expansion
  exact fun typed => stored.settled lawful member typed

end Stored

variable (registry) in
/-- The normal form of an object has the bytes of the object. -/
def KeepsBytes (members : List (String × Json)) : Prop :=
  ∀ bytes normal, registry.fieldBytes false (.object members) = .ok bytes →
    registry.normalForm members = .ok normal →
    registry.fieldBytes false (.object normal) = .ok bytes

section Values
variable {emptied : Bool} {field : Field} {json normal : Json} {bytes : Bytes}

theorem valueOf_rendered (lawful : registry.Lawful) (member : field ∈ registry.fields) {leaf : Leaf}
    (settled : leaf.Settled) (typed : field.wireType? = some (.leaf leaf.type))
    (rendered : registry.render field (.leaf leaf) = .ok json) :
    registry.valueOf field json = .ok (.leaf leaf) := by
  obtain ⟨again, rendered_again, built⟩ := leafOf_render lawful member settled typed
  rw [rendered] at rendered_again
  cases rendered_again
  rw [valueOf_leaf typed, built]
  rfl

theorem memberBytes_emptied (lawful : registry.Lawful) (known : registry.Known field)
    (account : field.name = "Account")
    (made : registry.memberBytes true field json = .ok bytes) :
    registry.memberBytes true field AccountId.zero.toJson = .ok bytes := by
  have typed : field.wireType? = some (.leaf .account) :=
    typed_of_carries lawful known.listed (by
      rw [account]
      exact (lawful.accounts _ "SourceTag" (by decide)).1)
  obtain ⟨value, written, built, wrote, rfl⟩ := value_of_memberBytes made
  have zero : registry.valueOf field AccountId.zero.toJson = .ok (.leaf (.account .zero)) :=
    valueOf_rendered lawful known.listed trivial typed (render_account field .zero)
  have omitted : (true && field.name == "Account") = true := by simp [account]
  obtain ⟨header, payload, coded, rfl, ⟨plain, -⟩ | ⟨prefixed, front, length, rfl⟩⟩ :=
    written_eq_ok.mp wrote
  · rw [known.variableLength lawful typed] at plain
    cases plain
  · rw [if_pos omitted] at length ⊢
    refine bind_eq_ok.mpr ⟨_, zero, bind_eq_ok.mpr ⟨_, written_eq_ok.mpr ⟨header, _, coded, rfl,
      .inr ⟨prefixed, front, ?_, rfl⟩⟩, ?_⟩⟩
    · rw [if_pos omitted, length]
    · rw [if_pos omitted]
      rfl

theorem memberBytes_leaf (lawful : registry.Lawful) (known : registry.Known field) {type : LeafType}
    (typed : field.wireType? = some (.leaf type))
    (settled : ∀ leaf, registry.leafOf field type json = .ok leaf → leaf.Settled)
    (made : registry.memberBytes emptied field json = .ok bytes)
    (normalized : registry.normalLeaf emptied field json = .ok normal) :
    registry.memberBytes emptied field normal = .ok bytes := by
  by_cases empty : (emptied && field.name == "Account") = true
  · rw [normalLeaf, if_pos empty] at normalized
    cases normalized
    simp only [Bool.and_eq_true, beq_iff_eq] at empty
    obtain ⟨rfl, account⟩ := empty
    exact memberBytes_emptied lawful known account made
  · rw [normalLeaf, if_neg empty] at normalized
    obtain ⟨value, built, rendered⟩ := bind_eq_ok.mp normalized
    rw [valueOf_leaf typed] at built
    obtain ⟨leaf, leaf_built, rfl⟩ := map_eq_ok.mp built
    obtain rfl := type_of_leafOf leaf_built
    have again := valueOf_rendered lawful known.listed (settled leaf leaf_built) typed rendered
    rw [memberBytes_congr (again.trans (by rw [valueOf_leaf typed, leaf_built]; rfl)), made]

theorem untaggable_of_normalLeaf (lawful : registry.Lawful) {type : LeafType}
    (typed : field.wireType? = some (.leaf type))
    (settled : ∀ leaf, registry.leafOf field type json = .ok leaf → leaf.Settled)
    (normalized : registry.normalLeaf emptied field json = .ok normal) : normal.Untaggable := by
  by_cases empty : (emptied && field.name == "Account") = true
  · rw [normalLeaf, if_pos empty] at normalized
    cases normalized
    exact AccountId.zero.untaggable
  · rw [normalLeaf, if_neg empty] at normalized
    obtain ⟨value, built, rendered⟩ := bind_eq_ok.mp normalized
    rw [valueOf_leaf typed] at built
    obtain ⟨leaf, leaf_built, rfl⟩ := map_eq_ok.mp built
    exact untaggable_render lawful (Leaf.canonical_of_settled (settled leaf leaf_built)) rendered

theorem memberBytes_object (typed : field.wireType? = some .object)
    (nested : ∀ inner, json = .object inner → registry.KeepsBytes inner)
    (made : registry.memberBytes emptied field json = .ok bytes)
    (normalized : registry.normalValue emptied field json
      (fun inner _ => registry.normalForm inner) =
      .ok normal) : registry.memberBytes emptied field normal = .ok bytes := by
  obtain ⟨value, -, built, -⟩ := value_of_memberBytes made
  obtain ⟨body, accepted, rfl⟩ := (valueOf_object_eq_ok typed).mp built
  obtain ⟨inner, -, -, rfl, -⟩ := registry.fieldBytes_eq_ok.mp accepted
  rw [normalValue_object typed] at normalized
  obtain ⟨normal_inner, normal_made, rfl⟩ := map_eq_ok.mp normalized
  have again := (valueOf_object_eq_ok typed).mpr
    ⟨body, nested inner rfl body normal_inner accepted normal_made, rfl⟩
  rw [memberBytes_congr (again.trans built.symm), made]

theorem container_of_normalValue {type : WireType} (typed : field.wireType? = some type)
    (container : ∀ leaf, type ≠ .leaf leaf)
    (made : registry.memberBytes emptied field json = .ok bytes)
    (normalized : registry.normalValue emptied field json
      (fun inner _ => registry.normalForm inner) =
      .ok normal) : ¬ normal.IsAtom := by
  obtain ⟨value, -, built, -⟩ := value_of_memberBytes made
  cases type with
  | leaf leaf => exact absurd rfl (container leaf)
  | object =>
    obtain ⟨body, accepted, -⟩ := (valueOf_object_eq_ok typed).mp built
    obtain ⟨inner, -, -, rfl, -⟩ := registry.fieldBytes_eq_ok.mp accepted
    rw [normalValue_object typed] at normalized
    obtain ⟨normal_inner, -, rfl⟩ := map_eq_ok.mp normalized
    exact not_isAtom_object normal_inner
  | array =>
    obtain ⟨items, -, rfl, -⟩ := (valueOf_array_eq_ok typed).mp built
    obtain ⟨results, -, rfl⟩ := (normalValue_array_eq_ok typed).mp normalized
    exact not_isAtom_array results

theorem itemBytes_of_itemForm {item : Json}
    (nested : ∀ name inner, item = .object [(name, .object inner)] → registry.KeepsBytes inner)
    (made : registry.itemBytes item = .ok bytes)
    (normalized : ItemForm registry.normalForm item normal) :
    registry.itemBytes normal = .ok bytes := by
  obtain ⟨name, inner, normal_inner, rfl, normal_made, rfl⟩ := normalized
  obtain ⟨_, _, field, header, body, same, unmarked, named, object, coded, accepted, rfl⟩ :=
    registry.itemBytes_eq_ok.mp made
  cases same
  exact registry.itemBytes_eq_ok.mpr ⟨name, _, field, header, body, rfl, unmarked, named, object,
    coded, nested name inner rfl body normal_inner accepted normal_made, rfl⟩

theorem memberBytes_array (typed : field.wireType? = some .array)
    (nested : ∀ items name inner, json = .array items → .object [(name, .object inner)] ∈ items →
      registry.KeepsBytes inner)
    (made : registry.memberBytes emptied field json = .ok bytes)
    (normalized : registry.normalValue emptied field json
      (fun inner _ => registry.normalForm inner) =
      .ok normal) : registry.memberBytes emptied field normal = .ok bytes := by
  obtain ⟨value, -, built, -⟩ := value_of_memberBytes made
  obtain ⟨items, parts, rfl, each, rfl⟩ := (valueOf_array_eq_ok typed).mp built
  obtain ⟨results, normals, rfl⟩ := (normalValue_array_eq_ok typed).mp normalized
  have again := (valueOf_array_eq_ok typed).mpr ⟨results, parts, rfl,
    forall₂_join each normals fun item in_items part result item_made item_normal =>
      itemBytes_of_itemForm (fun name inner same => nested items name inner rfl (same ▸ in_items))
        item_made item_normal, rfl⟩
  rw [memberBytes_congr (again.trans built.symm), made]

end Values

section Objects
variable {members normal : List (String × Json)}

theorem distinctNames_normalForm {emptied : Bool} (distinct : DistinctNames members)
    (each : List.Forall₂ (registry.MemberForm emptied) (registry.wireMembers false members)
      normal) :
    DistinctNames normal := by
  have names : (registry.wireMembers false members).map (·.1.name) = normal.map Prod.fst :=
    map_eq_map each fun member entry made => made.1.symm
  rw [DistinctNames, ← names]
  exact nodup_wireMembers distinct

theorem lookup_normalForm (distinct : DistinctNames members)
    (each : List.Forall₂ (registry.MemberForm (emptiesAccount members))
      (registry.wireMembers false members) normal) {name : String} {field : Field}
    (found : registry.wireField? false name = some field) :
    members.lookup name = none ∧ normal.lookup name = none ∨
    ∃ json result, members.lookup name = some json ∧ normal.lookup name = some result ∧
      (field, json) ∈ registry.wireMembers false members ∧
      registry.normalValue (emptiesAccount members) field json
        (fun inner _ => registry.normalForm inner) = .ok result := by
  obtain ⟨-, -, rfl⟩ := wireField?_eq_some found
  have normal_distinct := distinctNames_normalForm distinct each
  cases value : members.lookup field.name with
  | none =>
    left
    refine ⟨rfl, ?_⟩
    cases result : normal.lookup field.name with
    | none => rfl
    | some json =>
      obtain ⟨⟨other, json'⟩, in_wire, named, -⟩ := exists_left_of_mem each (mem_of_lookup result)
      obtain ⟨-, other_value⟩ := (mem_wireMembers_iff_lookup distinct).mp in_wire
      change field.name = other.name at named
      rw [← named, value] at other_value
      cases other_value
  | some json =>
    right
    have in_wire := (mem_wireMembers_iff_lookup distinct).mpr ⟨found, value⟩
    obtain ⟨⟨name, result⟩, in_normal, rfl, made⟩ := exists_right_of_mem each in_wire
    exact ⟨json, result, rfl, lookup_of_mem normal_distinct in_normal, in_wire, made⟩

theorem Stored.emptiesAccount_eq (lawful : registry.Lawful) (stored : registry.Stored members)
    (each : List.Forall₂ (registry.MemberForm (emptiesAccount members))
      (registry.wireMembers false members) normal) :
    emptiesAccount normal = emptiesAccount members := by
  obtain ⟨field, found, typed⟩ :=
    memberType?_eq_some.mp (memberType?_of_carries lawful.transactionType)
  rcases lookup_normalForm stored.distinct each found with
    ⟨absent, normal_absent⟩ | ⟨json, result, value, normal_value, in_wire, normalized⟩
  · rw [emptiesAccount, emptiesAccount, absent, normal_absent]
  · obtain ⟨leaf, canonical, same_type, rendered⟩ := stored.rendered in_wire typed
    have settled : leaf.Settled := by
      cases leaf with
      | unsigned u => trivial
      | _ => cases same_type
    rw [← same_type] at typed
    have built := valueOf_rendered lawful (known_of_wireField? found).listed settled typed rendered
    have named : field.name = "TransactionType" := (wireField?_eq_some found).2.2
    rw [normalValue_leaf typed, normalLeaf, if_neg (by simp [named]), built] at normalized
    have same : json = result := Except.ok.inj (rendered.symm.trans normalized)
    rw [emptiesAccount, emptiesAccount, value, normal_value, same]

theorem Stored.keeps_member (lawful : registry.Lawful) (stored : registry.Stored members)
    (nested : ∀ inner, registry.Nested members inner → registry.KeepsBytes inner) {field : Field}
    {json result : Json} (member : (field, json) ∈ registry.wireMembers false members)
    {emptied : Bool} {bytes : Bytes} (made : registry.memberBytes emptied field json = .ok bytes)
    (normalized : registry.normalValue emptied field json
      (fun inner _ => registry.normalForm inner) = .ok result) :
    registry.memberBytes emptied field result = .ok bytes ∧
      ∀ text x, result = .string text → TaggedAddress.decode text ≠ .ok x := by
  have known := known_of_mem_wireMembers member
  obtain ⟨type, typed, -⟩ := lawful.typed field known.listed known.serialized
  have in_members (container : ¬ json.IsAtom) :=
    mem_of_mem_wireMembers stored.expand member container
  cases type with
  | leaf type =>
    have settled (leaf : Leaf) (built : registry.leafOf field type json = .ok leaf) :
        leaf.Settled :=
      stored.settled lawful member typed built
    rw [normalValue_leaf typed] at normalized
    refine ⟨memberBytes_leaf lawful known typed settled made normalized, ?_⟩
    have untaggable := untaggable_of_normalLeaf lawful typed settled normalized
    rintro text x rfl
    exact Json.decode_ne_ok untaggable .here x
  | object =>
    refine ⟨memberBytes_object typed (fun inner same => ?_) made normalized, ?_⟩
    · subst same
      obtain ⟨inside, same_type⟩ := in_members (not_isAtom_object inner)
      exact nested inner (.object inside (same_type.trans typed))
    · rintro text x rfl
      exact absurd (.inl ⟨text, rfl⟩) (container_of_normalValue typed nofun made normalized)
  | array =>
    refine ⟨memberBytes_array typed (fun items name inner same item => ?_) made normalized, ?_⟩
    · subst same
      obtain ⟨inside, same_type⟩ := in_members (not_isAtom_array items)
      exact nested inner (.element inside (same_type.trans typed) item)
    · rintro text x rfl
      exact absurd (.inl ⟨text, rfl⟩) (container_of_normalValue typed nofun made normalized)

theorem Stored.keepsBytes (lawful : registry.Lawful) (stored : registry.Stored members)
    (nested : ∀ inner, registry.Nested members inner → registry.KeepsBytes inner) :
    registry.KeepsBytes members := by
  intro bytes normal accepted normalized
  obtain ⟨_, expansion, each⟩ := normalForm_eq_ok.mp normalized
  rw [stored.expand] at expansion
  cases expansion
  obtain ⟨_, _, parts, object, expansion, made, -⟩ := registry.fieldBytes_eq_ok.mp accepted
  cases object
  rw [stored.expand] at expansion
  cases expansion
  have distinct := distinctNames_normalForm stored.distinct each
  -- The normal form has no tagged address in it, so there is nothing to expand a second time.
  have plain : expandAddresses normal = .ok normal := by
    refine expandAddresses_of_plain fun name text in_normal x => ?_
    obtain ⟨⟨field, json⟩, in_wire, -, made_normal⟩ := exists_left_of_mem each in_normal
    obtain ⟨part, -, made_part⟩ := exists_right_of_mem made in_wire
    exact (stored.keeps_member lawful nested in_wire made_part made_normal).2 text x rfl
  rw [fieldBytes_congr lawful.coherent stored.distinct distinct stored.expand plain
    (stored.emptiesAccount_eq lawful each), accepted]
  intro name field found
  rcases lookup_normalForm stored.distinct each found with
    ⟨absent, normal_absent⟩ | ⟨json, result, value, normal_value, in_wire, made_normal⟩
  · rw [absent, normal_absent]
  · obtain ⟨part, -, made_part⟩ := exists_right_of_mem made in_wire
    rw [value, normal_value, Option.map_some, Option.map_some, made_part,
      (stored.keeps_member lawful nested in_wire made_part made_normal).1]

theorem keepsBytes (lawful : registry.Lawful)
    (stored : ∀ level, registry.Level members level → registry.Stored level) :
    registry.KeepsBytes members := by
  induction members using registry.level_induction with
  | step members ih =>
    exact (stored members .refl).keepsBytes lawful fun inner nested =>
      ih inner nested fun level inside => stored level (.head nested inside)

end Objects

theorem checked_repeatedFlags :
    (bundled.decodeBytes [0x22, 0, 0, 0, 0, 0x22, 0, 0, 0, 1] >>= bundled.encode) =
      .ok [0x22, 0, 0, 0, 1] := by
  rw [bundled_eq]
  decide +kernel

/-- Encoding what was decoded, from any bytes, is a projection: the bytes that come of it are
decoded to an object that is encoded as these bytes. No text in a decoded object is a tagged
address, and each leaf that was read settles in one step. -/
theorem reencoding_projects :
    (∀ bytes v again, bundled.decodeBytes bytes = .ok v → bundled.encode v = .ok again →
      ∃ w, bundled.decodeBytes again = .ok w ∧ bundled.encode w = .ok again) ∧
    (∀ bytes v text x, bundled.decodeBytes bytes = .ok v → v.Spells text →
      TaggedAddress.decode text ≠ .ok x) ∧
    (∀ type announced before after leaf json again,
      Leaf.read type announced before = .ok leaf after → leaf.toJson = .ok json →
      Leaf.ofJson type json = .ok again →
      (∃ json', again.toJson = .ok json' ∧ Leaf.ofJson type json' = .ok again) ∧
      ∀ announced, again.Prefixed announced →
        Reads (Leaf.read type announced) again.toBytes again) := by
  refine ⟨fun bytes v again decoded encoded => ?_, fun bytes v text x decoded spelled => ?_,
    fun type announced before after leaf json again read rendered built => ?_⟩
  · obtain ⟨members, rfl, shape⟩ := decoded_of_decodeBytes bundled_lawful decoded
    have regular (level : List (String × Json)) (inside : bundled.Level members level) :
        bundled.Regular level := (shape.stored level inside).regular bundled_lawful
    obtain ⟨normal, normal_members, shown⟩ := readsBack bundled_lawful regular again encoded
    exact ⟨.object normal, shown.decodeBytes (Nat.lt_succ_iff.mp shape.shallow),
      keepsBytes bundled_lawful shape.stored again normal encoded normal_members⟩
  · obtain ⟨members, rfl, shape⟩ := decoded_of_decodeBytes bundled_lawful decoded
    exact Json.decode_ne_ok shape.untaggable spelled x
  · obtain ⟨canonical, rfl⟩ := Leaf.canonical_of_read read
    have settled := Leaf.settled_of_toJson canonical rendered built
    have same := Leaf.type_of_ofJson built
    rw [← same]
    exact ⟨Leaf.ofJson_toJson settled,
      fun announced => Leaf.read_toBytes (Leaf.canonical_of_settled settled)⟩

theorem reencoding_projects_repeatedFlags : ∃ v w,
    bundled.decodeBytes [0x22, 0, 0, 0, 0, 0x22, 0, 0, 0, 1] = .ok v ∧
    bundled.encode v = .ok [0x22, 0, 0, 0, 1] ∧
    bundled.decodeBytes [0x22, 0, 0, 0, 1] = .ok w ∧
    bundled.encode w = .ok [0x22, 0, 0, 0, 1] := by
  obtain ⟨v, decoded, encoded⟩ := bind_eq_ok.mp checked_repeatedFlags
  obtain ⟨w, again, settled⟩ := reencoding_projects.1 _ v _ decoded encoded
  exact ⟨v, w, decoded, encoded, again, settled⟩

end Registry
end LedgerWire
