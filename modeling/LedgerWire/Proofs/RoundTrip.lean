import LedgerWire.Codec
import LedgerWire.Proofs.NormalForm
import LedgerWire.Proofs.ReadBack

/-!
Decoding undoes encoding up to the normal form. An object is taken member by member: what each of
them is written as is read back as its normal form, or refused for how deep it nests.
-/

namespace LedgerWire

namespace Hex

theorem not_isBlank_digit {n : Nat} (h : n < 16) : Text.isBlank (digit n) = false := by
  have all : ∀ n : Fin 16, Text.isBlank (digit n.val) = false := by decide
  exact all ⟨n, h⟩

theorem not_isBlank_encode {bytes : Bytes} {c : Char} (h : c ∈ bytes.flatMap encodeByte) :
    Text.isBlank c = false := by
  obtain ⟨b, -, inside⟩ := List.mem_flatMap.mp h
  have bound := b.toNat_lt
  simp only [encodeByte, List.mem_cons, List.not_mem_nil, or_false] at inside
  rcases inside with rfl | rfl
  · exact not_isBlank_digit (by omega)
  · exact not_isBlank_digit (by omega)

theorem trim_encode (bytes : Bytes) : Text.trim (encode bytes) = encode bytes := by
  have kept {digits : List Char} (h : ∀ c ∈ digits, Text.isBlank c = false) :
      digits.dropWhile Text.isBlank = digits := by
    cases digits with
    | nil => rfl
    | cons c rest => rw [List.dropWhile_cons, if_neg (by simp [h c List.mem_cons_self])]
  have digits : ∀ c ∈ bytes.flatMap encodeByte, Text.isBlank c = false :=
    fun c => not_isBlank_encode
  rw [Text.trim, encode, String.toList_ofList, kept digits,
    kept fun c member => digits c (List.mem_reverse.mp member), List.reverse_reverse]

end Hex

namespace Registry
variable {registry : Registry}

variable (registry) in
def ReadsBack (members : List (String × Json)) : Prop :=
  ∀ bytes, registry.fieldBytes false (.object members) = .ok bytes →
    ∃ normal, registry.normalForm members = .ok normal ∧
      registry.Shown bytes normal (registry.nestingOfMembers members)

variable (registry) in
structure Made (emptied : Bool) (member : Field × Json) (part : Part) : Prop where
  field : part.field = member.1
  depth : part.depth = registry.nestingOf member.1.wireType? member.2
  named : part.Named registry
  holds : registry.Holds part.field part.payload part.json part.depth
  normal : registry.normalValue emptied member.1 member.2
    (fun inner _ => registry.normalForm inner) = .ok part.json

section Members
variable {emptied : Bool} {field : Field} {json : Json} {bytes : Bytes}

theorem made_of_leaf (lawful : registry.Lawful) (known : registry.Known field)
    (opens : field.name ≠ objectEndName) {type : LeafType}
    (typed : field.wireType? = some (.leaf type))
    (settled : ∀ leaf, registry.leafOf field type json = .ok leaf → leaf.Settled)
    (made : registry.memberBytes emptied field json = .ok bytes) :
    ∃ part, part.bytes = bytes ∧ registry.Made emptied (field, json) part := by
  obtain ⟨value, written, built, wrote, rfl⟩ := value_of_memberBytes made
  rw [valueOf_leaf typed] at built
  obtain ⟨leaf, leaf_built, rfl⟩ := map_eq_ok.mp built
  obtain ⟨header, payload, coded, rfl, payload_eq⟩ := written_eq_ok.mp wrote
  have lengthened := known.variableLength lawful typed
  obtain rfl := type_of_leafOf leaf_built
  have named (json : Json) : Part.Named registry ⟨field, header.encode, payload, json, 0⟩ :=
    ⟨reads_header lawful known.listed coded, header.encode_ne_nil, opens⟩
  have shape (json : Json) : Part.bytes ⟨field, header.encode, payload, json, 0⟩ =
      header.encode ++ payload ++ (if field.isObject then [objectEnd] else []) := by
    simp [Part.bytes, isObject_of_typed typed]
  by_cases empty : (emptied && field.name == "Account") = true
  · have account : field.wireType? = some (.leaf .account) := by
      apply typed_of_carries lawful known.listed
      simp only [Bool.and_eq_true, beq_iff_eq] at empty
      rw [empty.2]
      exact (lawful.accounts _ "SourceTag" (by decide)).1
    have prefixed := known.variableLength lawful account
    rw [if_pos empty] at payload_eq
    obtain ⟨plain, -⟩ | ⟨-, front, length, rfl⟩ := payload_eq
    · rw [prefixed] at plain
      cases plain
    cases length
    have zero : field.wireType? = some (.leaf (Leaf.account .zero).type) := account
    refine ⟨_, shape AccountId.zero.toJson, rfl, ?_, named _,
      holds_leaf zero prefixed trivial (render_account field .zero) (.omitted prefixed), ?_⟩
    · simp [nestingOf, typed]
    · rw [normalValue_leaf typed, normalLeaf, if_pos empty]
      rfl
  · rw [if_neg empty] at payload_eq
    have spelled : LeafBytes field leaf payload := by
      obtain ⟨plain, rfl⟩ | ⟨variable_length, front, length, rfl⟩ := payload_eq
      · exact .plain plain
      · exact .lengthened variable_length length
    obtain ⟨rendering, rendered, -⟩ :=
      leafOf_render lawful known.listed (settled leaf leaf_built) typed
    refine ⟨_, shape rendering, rfl, ?_, named _, holds_leaf typed lengthened
      (Leaf.canonical_of_settled (settled leaf leaf_built)) rendered spelled, ?_⟩
    · simp [nestingOf, typed]
    · rw [normalValue_leaf typed, normalLeaf, if_neg empty, valueOf_leaf typed, leaf_built]
      exact rendered

theorem made_of_object (lawful : registry.Lawful) (known : registry.Known field)
    (opens : field.name ≠ objectEndName) (typed : field.wireType? = some .object)
    (nested : ∀ inner, json = .object inner → registry.ReadsBack inner)
    (made : registry.memberBytes emptied field json = .ok bytes) :
    ∃ part, part.bytes = bytes ∧ registry.Made emptied (field, json) part := by
  obtain ⟨value, written, built, wrote, rfl⟩ := value_of_memberBytes made
  obtain ⟨body, accepted, rfl⟩ := (valueOf_object_eq_ok typed).mp built
  obtain ⟨inner, -, -, rfl, -⟩ := registry.fieldBytes_eq_ok.mp accepted
  obtain ⟨normal, normal_inner, shown⟩ := nested inner rfl body accepted
  have plain : field.variableLength = false := known.variableLength lawful typed
  obtain ⟨header, coded, rfl⟩ := fieldBytes_of_unprefixed wrote plain
  refine ⟨⟨field, header.encode, body ++ [objectEnd], .object normal, _⟩, ?_, rfl, ?_,
    ⟨reads_header lawful known.listed coded, header.encode_ne_nil, opens⟩,
    holds_object typed plain shown, ?_⟩
  · simp [Part.bytes, isObject_of_typed typed, Value.toBytes]
  · simp [nestingOf, typed, nesting]
  · rw [normalValue_object typed, normal_inner]
    rfl

theorem encloses_of_item (lawful : registry.Lawful) {item : Json}
    (nested : ∀ name inner, item = .object [(name, .object inner)] → registry.ReadsBack inner)
    (made : registry.itemBytes item = .ok bytes) :
    ∃ part : Part, part.bytes = bytes ∧ part.Encloses registry ∧
      ItemForm registry.normalForm item (.object [(part.field.name, part.json)]) ∧
      ∀ n, (∀ name body, item = .object [(name, body)] → registry.nesting body + 1 ≤ n) ↔
        part.depth ≤ n := by
  obtain ⟨name, body, field, header, inner_bytes, rfl, -, named, object, coded, accepted, rfl⟩ :=
    registry.itemBytes_eq_ok.mp made
  obtain ⟨inner, -, -, rfl, -⟩ := registry.fieldBytes_eq_ok.mp accepted
  obtain ⟨normal, normal_inner, shown⟩ := nested name inner rfl inner_bytes accepted
  obtain ⟨member, rfl⟩ : field ∈ registry.fields ∧ field.name = name := by
    unfold Registry.field at named
    split at named
    · rename_i found
      cases named
      exact ⟨List.mem_of_find?_eq_some found, by simpa using List.find?_some found⟩
    · cases named
  have opens : field.name ≠ arrayEndName := by
    intro closes
    have array := lawful.arrayType
    rw [← closes, field?_of_mem lawful member, Option.bind_some] at array
    rw [isObject_of_typed array] at object
    cases object
  refine ⟨⟨field, header.encode, inner_bytes ++ [objectEnd], .object normal, _⟩, ?_,
    ⟨⟨reads_header lawful member (header_eq_ok.mp coded), header.encode_ne_nil, opens, object⟩,
      inner_bytes, normal, _, rfl, rfl, rfl, shown⟩,
    ⟨field.name, inner, normal, rfl, normal_inner, rfl⟩, fun n => ?_⟩
  · simp [Part.bytes]
  · constructor
    · intro all
      simpa [nesting] using all field.name _ rfl
    · rintro shallow other _ same
      cases same
      simpa [nesting] using shallow

theorem made_of_array (lawful : registry.Lawful) (known : registry.Known field)
    (opens : field.name ≠ objectEndName) (typed : field.wireType? = some .array)
    (nested : ∀ items name inner, json = .array items → .object [(name, .object inner)] ∈ items →
      registry.ReadsBack inner)
    (made : registry.memberBytes emptied field json = .ok bytes) :
    ∃ part, part.bytes = bytes ∧ registry.Made emptied (field, json) part := by
  obtain ⟨value, written, built, wrote, rfl⟩ := value_of_memberBytes made
  obtain ⟨items, item_bytes, rfl, each, rfl⟩ := (valueOf_array_eq_ok typed).mp built
  obtain ⟨parts, rfl, matched⟩ := exists_forall₂_map each fun item in_items bytes made =>
    encloses_of_item lawful (fun name inner same => nested items name inner rfl (same ▸ in_items))
      made
  have plain : field.variableLength = false := known.variableLength lawful typed
  obtain ⟨header, coded, rfl⟩ := fieldBytes_of_unprefixed wrote plain
  have encloses : ∀ part ∈ parts, part.Encloses registry := by
    intro part in_parts
    obtain ⟨item, -, encloses, -⟩ := exists_left_of_mem matched in_parts
    exact encloses
  have depth_le (n : Nat) : registry.nestingOfItems items ≤ n ↔ ∀ part ∈ parts, part.depth ≤ n := by
    rw [nestingOfItems_le, ← forall_mem_congr matched fun item part made => made.2.2 n]
    exact ⟨fun all item in_items name body same => all name body (same ▸ in_items),
      fun all name body in_items => all _ in_items name body rfl⟩
  refine ⟨⟨field, header.encode, parts.flatMap Part.bytes ++ [arrayEnd], _, _⟩, ?_, rfl, ?_,
    ⟨reads_header lawful known.listed coded, header.encode_ne_nil, opens⟩,
    holds_array lawful typed plain encloses depth_le, ?_⟩
  · simp [Part.bytes, isObject_of_typed typed, Value.toBytes, List.flatMap_def]
  · simp [nestingOf, typed, nestingOfArray]
  · refine (normalValue_array_eq_ok typed).mpr ⟨_, ?_, rfl⟩
    rw [List.forall₂_map_right_iff]
    exact matched.imp fun item part made => made.2.1

theorem container_of_memberBytes {type : WireType} (typed : field.wireType? = some type)
    (container : ∀ leaf, type ≠ .leaf leaf)
    (made : registry.memberBytes emptied field json = .ok bytes) : ¬ json.IsAtom := by
  obtain ⟨value, -, built, -⟩ := value_of_memberBytes made
  cases type with
  | leaf leaf => exact absurd rfl (container leaf)
  | object =>
    obtain ⟨body, accepted, -⟩ := (valueOf_object_eq_ok typed).mp built
    obtain ⟨inner, -, -, rfl, -⟩ := registry.fieldBytes_eq_ok.mp accepted
    exact not_isAtom_object inner
  | array =>
    obtain ⟨items, -, rfl, -⟩ := (valueOf_array_eq_ok typed).mp built
    exact not_isAtom_array items

end Members

section Objects
variable {members expanded : List (String × Json)}

theorem nestingOf_eq_zero {type : Option WireType} (json : Json)
    (no_container : ¬ ∃ container, type = some container ∧ ∀ leaf, container ≠ .leaf leaf) :
    registry.nestingOf type json = 0 := by
  rcases type with _ | _ | _ | _
  · rfl
  · rfl
  · exact absurd ⟨_, rfl, nofun⟩ no_container
  · exact absurd ⟨_, rfl, nofun⟩ no_container

theorem nestingOfMembers_le_wire (expansion : expandAddresses members = .ok expanded)
    (distinct : DistinctNames members)
    (accepted : ∀ member ∈ registry.wireMembers false expanded, ∃ emptied bytes,
      registry.memberBytes emptied member.1 member.2 = .ok bytes) {n : Nat} :
    registry.nestingOfMembers members ≤ n ↔
      ∀ member ∈ registry.wireMembers false expanded,
        registry.nestingOf member.1.wireType? member.2 ≤ n := by
  rw [nestingOfMembers_le]
  constructor
  · rintro shallow ⟨field, json⟩ member
    obtain ⟨emptied, bytes, made⟩ := accepted _ member
    by_cases container : ∃ type, field.wireType? = some type ∧ ∀ leaf, type ≠ .leaf leaf
    · obtain ⟨type, typed, container⟩ := container
      obtain ⟨in_members, same_type⟩ := mem_of_mem_wireMembers expansion member
        (container_of_memberBytes typed container made)
      have bound := shallow _ in_members
      rwa [same_type] at bound
    · rw [nestingOf_eq_zero json container]
      exact Nat.zero_le n
  · rintro shallow ⟨name, json⟩ member
    by_cases container : ∃ type, registry.memberType? name = some type ∧ ∀ leaf, type ≠ .leaf leaf
    · obtain ⟨type, typed, container⟩ := container
      obtain ⟨field, found, field_type⟩ := memberType?_eq_some.mp typed
      obtain ⟨expanded_json, in_expanded⟩ := exists_mem_expanded expansion distinct member
      have on_wire := mem_wireMembers.mpr ⟨name, in_expanded, found⟩
      obtain ⟨emptied, bytes, made⟩ := accepted _ on_wire
      have kept := mem_of_mem_expanded expansion in_expanded
        (container_of_memberBytes field_type container made)
      have same := lookup_of_mem distinct kept
      rw [lookup_of_mem distinct member] at same
      cases same
      have bound := shallow _ on_wire
      rwa [field_type, ← typed] at bound
    · rw [nestingOf_eq_zero json container]
      exact Nat.zero_le n

variable (registry) in
/-- Members whose object is read back as it is written: no two of a name, none of the name that
closes an object, and leaves that are what is read from their bytes. -/
structure Regular (members : List (String × Json)) : Prop where
  distinct : DistinctNames members
  unmarked : ∀ member ∈ members, member.1 ≠ objectEndName
  settled : ∀ expanded field json type leaf, expandAddresses members = .ok expanded →
    (field, json) ∈ registry.wireMembers false expanded →
    field.wireType? = some (.leaf type) → registry.leafOf field type json = .ok leaf → leaf.Settled

theorem Regular.opens (regular : registry.Regular members)
    (expansion : expandAddresses members = .ok expanded) {field : Field} {json : Json}
    (member : (field, json) ∈ registry.wireMembers false expanded) :
    field.name ≠ objectEndName := by
  obtain ⟨name, in_expanded, found⟩ := mem_wireMembers.mp member
  obtain ⟨-, -, rfl⟩ := wireField?_eq_some found
  rcases exists_mem_of_mem_expanded expansion in_expanded with
    ⟨json, in_members⟩ | ⟨account, paired⟩
  · exact regular.unmarked _ in_members
  · rcases tagMember?_eq_some paired with ⟨-, tag⟩ | ⟨-, tag⟩ <;> rw [tag] <;> decide

theorem Regular.readsBack (lawful : registry.Lawful) (regular : registry.Regular members)
    (nested : ∀ inner, registry.Nested members inner → registry.ReadsBack inner) :
    registry.ReadsBack members := by
  intro bytes accepted
  obtain ⟨_, expanded, pieces, object, expansion, each, rfl⟩ :=
    registry.fieldBytes_eq_ok.mp accepted
  cases object
  -- Each written member is a part that is read back; a leaf because it is settled, a container
  -- because the objects in it are read back.
  obtain ⟨parts, rfl, matched⟩ := exists_forall₂_map (f := Part.bytes)
    (S := registry.Made (emptiesAccount expanded)) each fun ⟨field, json⟩ member bytes made => by
      have known := known_of_mem_wireMembers member
      have opens := regular.opens expansion member
      obtain ⟨type, typed, -⟩ := lawful.typed field known.listed known.serialized
      cases type with
      | leaf type =>
        exact made_of_leaf lawful known opens typed
          (regular.settled expanded field json type · expansion member typed) made
      | object =>
        refine made_of_object lawful known opens typed (fun inner same => ?_) made
        subst same
        obtain ⟨in_members, same_type⟩ :=
          mem_of_mem_wireMembers expansion member (not_isAtom_object inner)
        exact nested inner (.object in_members (same_type.trans typed))
      | array =>
        refine made_of_array lawful known opens typed (fun items name inner same item => ?_) made
        subst same
        obtain ⟨in_members, same_type⟩ :=
          mem_of_mem_wireMembers expansion member (not_isAtom_array items)
        exact nested inner (.element in_members (same_type.trans typed) item)
  refine ⟨parts.map fun part => (part.field.name, part.json), ?_, ?_⟩
  · refine normalForm_eq_ok.mpr ⟨expanded, expansion, ?_⟩
    rw [List.forall₂_map_right_iff]
    exact matched.imp fun member part made => ⟨by rw [made.field], made.normal⟩
  · rw [← List.flatMap_def]
    apply shown_of_parts lawful
    · intro part in_parts
      obtain ⟨member, -, made⟩ := exists_left_of_mem matched in_parts
      exact ⟨made.named, made.holds⟩
    · rw [← map_eq_map (f := fun member => member.1.name) matched fun member part made => by
        rw [made.field]]
      exact nodup_wireMembers (distinctNames_expanded expansion regular.distinct)
    · intro n
      rw [nestingOfMembers_le_wire expansion regular.distinct fun member in_wire => by
        obtain ⟨part, -, made⟩ := exists_right_of_mem each in_wire
        exact ⟨_, part, made⟩]
      exact forall_mem_congr matched fun member part made => by rw [made.depth]

theorem readsBack (lawful : registry.Lawful)
    (regular : ∀ level, registry.Level members level → registry.Regular level) :
    registry.ReadsBack members := by
  -- The outermost object is read back when those nested in it are, which are all regular as well.
  induction members using registry.level_induction with
  | step members ih =>
    exact (regular members .refl).readsBack lawful fun inner nested =>
      ih inner nested fun level inside => regular level (.head nested inside)

end Objects

theorem decode_hex (bytes : Bytes) :
    registry.decode (Hex.encode bytes) = registry.decodeBytes bytes := by
  rw [decode, Hex.trim_encode, Hex.decode_encode]

section Regularity
variable {members expanded : List (String × Json)}

/-- Only the issuer of an asset can be spelled so that its bytes mean another asset. -/
theorem regular_of_types (lawful : registry.Lawful) (distinct : DistinctNames members)
    (unmarked : ∀ member ∈ members, member.1 ≠ objectEndName)
    (no_asset : ∀ member ∈ members, registry.memberType? member.1 ≠ some (.leaf .asset))
    (no_bridge : ∀ member ∈ members, registry.memberType? member.1 ≠ some (.leaf .bridge)) :
    registry.Regular members := by
  refine ⟨distinct, unmarked, fun expanded field json type leaf expansion member typed built => ?_⟩
  obtain ⟨name, in_expanded, found⟩ := mem_wireMembers.mp member
  have member_type : registry.memberType? name = some (.leaf type) :=
    memberType?_eq_some.mpr ⟨field, found, typed⟩
  rcases exists_mem_of_mem_expanded expansion in_expanded with
    ⟨json, in_members⟩ | ⟨account, paired⟩
  · apply settled_of_leafOf built
    · rintro rfl
      exact no_asset _ in_members member_type
    · rintro rfl
      exact no_bridge _ in_members member_type
  · obtain ⟨-, -, rfl⟩ := wireField?_eq_some found
    have tag := typed_of_carries lawful (known_of_wireField? found).listed
      (lawful.accounts _ _ paired).2
    rw [typed] at tag
    cases tag
    exact settled_of_leafOf built nofun nofun

end Regularity

def memo : List (String × Json) := [("MemoData", .string "AB")]

def memos : List (String × Json) := [("Memos", .array [.object [("Memo", .object memo)]])]

theorem checked_memos :
    bundled.encode (.object memos) = .ok [0xF9, 0xEA, 0x7D, 0x01, 0xAB, 0xE1, 0xF1] ∧
    bundled.nestingOfMembers memos ≤ maxNesting ∧
    bundled.memberType? "Memos" = some .array ∧
    bundled.memberType? "MemoData" = some (.leaf .blob) := by
  rw [bundled_eq]
  decide +kernel

theorem level_memos {level : List (String × Json)} (inside : bundled.Level memos level) :
    level = memos ∨ level = memo := by
  induction inside with
  | refl => exact .inl rfl
  | tail _ nested ih =>
    rcases ih with rfl | rfl
    · cases nested with
      | object member => simp [memos] at member
      | element member _ item =>
        simp only [memos, List.mem_singleton, Prod.mk.injEq, Json.array.injEq] at member
        obtain ⟨-, rfl⟩ := member
        simp only [List.mem_singleton, Json.object.injEq, List.cons.injEq, Prod.mk.injEq] at item
        exact .inr item.1.2
    · cases nested with
      | object member => simp [memo] at member
      | element member => simp [memo] at member

/-- What is encoded is decoded as its normal form, or is refused for how deep it nests. -/
theorem decode_encode_normalForm (members : List (String × Json)) (bytes : Bytes)
    (distinct : ∀ level, bundled.Level members level → DistinctNames level)
    (unmarked : ∀ level, bundled.Level members level → ∀ member ∈ level,
      member.1 ≠ objectEndName)
    (no_asset : ∀ level, bundled.Level members level → ∀ member ∈ level,
      bundled.memberType? member.1 ≠ some (.leaf .asset))
    (no_bridge : ∀ level, bundled.Level members level → ∀ member ∈ level,
      bundled.memberType? member.1 ≠ some (.leaf .bridge))
    (accepted : bundled.encode (.object members) = .ok bytes) :
    (bundled.nestingOfMembers members ≤ maxNesting →
      ∃ normal, bundled.normalForm members = .ok normal ∧
        bundled.decode (Hex.encode bytes) = .ok (.object normal)) ∧
    (maxNesting < bundled.nestingOfMembers members →
      ∃ type : WireType,
        bundled.decode (Hex.encode bytes) = .error (.nestingTooDeep type.name maxNesting)) := by
  have regular (level : List (String × Json)) (inside : bundled.Level members level) :
      bundled.Regular level :=
    regular_of_types bundled_lawful (distinct level inside) (unmarked level inside)
      (no_asset level inside) (no_bridge level inside)
  obtain ⟨normal, normal_members, shown⟩ := readsBack bundled_lawful regular bytes accepted
  constructor
  · intro shallow
    exact ⟨normal, normal_members, (decode_hex bytes).trans (shown.decodeBytes shallow)⟩
  · intro deep
    obtain ⟨_, ⟨type, rfl⟩, refused⟩ := shown.decodeBytes_refused deep
    exact ⟨type, (decode_hex bytes).trans refused⟩

theorem decode_encode_memos :
    ∃ normal, bundled.normalForm memos = .ok normal ∧
      bundled.decode (Hex.encode [0xF9, 0xEA, 0x7D, 0x01, 0xAB, 0xE1, 0xF1]) =
        .ok (.object normal) := by
  obtain ⟨accepted, shallow, array, blob⟩ := checked_memos
  refine (decode_encode_normalForm memos _ ?_ ?_ ?_ ?_ accepted).1 shallow
  · intro level inside
    rcases level_memos inside with rfl | rfl <;> decide
  · intro level inside
    rcases level_memos inside with rfl | rfl <;> decide
  · intro level inside
    rcases level_memos inside with rfl | rfl <;> simp [memos, memo, array, blob]
  · intro level inside
    rcases level_memos inside with rfl | rfl <;> simp [memos, memo, array, blob]

end Registry
end LedgerWire
