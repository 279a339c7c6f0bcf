import LedgerWire.Proofs.Projection

namespace LedgerWire.Registry

section Frames
variable (registry : Registry)

/-- A name under which an object is written: that of a serialized member, or that of a tag that a
tagged address holds. -/
def WritesName (members : List (String × Json)) (name : String) : Prop :=
  name ∈ members.map Prod.fst ∧ (registry.wireField? false name).isSome = true ∨
    ∃ tag, Moves members name tag

mutual
/-- The second object has one member for each name under which the first is written, and its
containers have the frames of the containers of that name. -/
inductive SameFrame : List (String × Json) → List (String × Json) → Prop
  | intro {members others : List (String × Json)} :
      DistinctNames others →
      (∀ name, name ∈ others.map Prod.fst ↔ registry.WritesName members name) →
      (∀ name json other, (name, json) ∈ members → (name, other) ∈ others →
        SameShape (registry.memberType? name) json other) →
      SameFrame members others

/-- The values of a member of some type have the same frame. A value that holds no fields has
none. -/
inductive SameShape : Option WireType → Json → Json → Prop
  | object {inner other : List (String × Json)} :
      SameFrame inner other → SameShape (some .object) (.object inner) (.object other)
  | array {items others : List Json} :
      SameElements items others → SameShape (some .array) (.array items) (.array others)
  | plain {type : Option WireType} {json other : Json} :
      type ≠ some .object → type ≠ some .array → SameShape type json other

inductive SameElements : List Json → List Json → Prop
  | nil : SameElements [] []
  | cons {name : String} {inner other : List (String × Json)} {items others : List Json} :
      SameFrame inner other → SameElements items others →
      SameElements (.object [(name, .object inner)] :: items)
        (.object [(name, .object other)] :: others)
end

end Frames

variable {registry : Registry} {members expanded others normal : List (String × Json)}

theorem mem_names_expanded (expansion : expandAddresses members = .ok expanded)
    (distinct : DistinctNames members) {name : String} :
    (∃ json, (name, json) ∈ expanded) ↔
      name ∈ members.map Prod.fst ∨ ∃ tag, Moves members name tag := by
  constructor
  · rintro ⟨json, member⟩
    by_cases moves : ∃ tag, Moves members name tag
    · exact .inr moves
    · have value := lookup_of_mem (distinctNames_expanded expansion distinct) member
      rw [lookup_expanded expansion distinct fun tag moved => moves ⟨tag, moved⟩] at value
      obtain ⟨before, found, -⟩ := Option.map_eq_some_iff.mp value
      exact .inl (List.mem_map.mpr ⟨_, mem_of_lookup found, rfl⟩)
  · rintro (named | ⟨tag, moves⟩)
    · obtain ⟨⟨_, json⟩, member, rfl⟩ := List.mem_map.mp named
      exact exists_mem_expanded expansion distinct member
    · exact ⟨_, mem_of_lookup (lookup_expanded_of_moves expansion distinct moves)⟩

theorem wireField?_of_moves (lawful : registry.Lawful) {name : String} {tag : UInt32}
    (moves : Moves members name tag) : (registry.wireField? false name).isSome = true := by
  obtain ⟨account, text, x, paired, -⟩ := moves.tagged
  obtain ⟨field, found, -⟩ :=
    memberType?_eq_some.mp (memberType?_of_carries (lawful.accounts _ _ paired).2)
  rw [found, Option.isSome_some]

theorem mem_names_normalForm (lawful : registry.Lawful) (distinct : DistinctNames members)
    (expansion : expandAddresses members = .ok expanded)
    (each : List.Forall₂ (registry.MemberForm (emptiesAccount expanded))
      (registry.wireMembers false expanded) normal) (name : String) :
    name ∈ normal.map Prod.fst ↔ registry.WritesName members name := by
  have names : (registry.wireMembers false expanded).map (·.1.name) = normal.map Prod.fst :=
    map_eq_map each fun member entry made => made.1.symm
  have written : name ∈ normal.map Prod.fst ↔
      (∃ json, (name, json) ∈ expanded) ∧ (registry.wireField? false name).isSome = true := by
    rw [← names, List.mem_map]
    constructor
    · rintro ⟨⟨field, json⟩, member, rfl⟩
      obtain ⟨name, kept, found⟩ := mem_wireMembers.mp member
      obtain ⟨-, -, rfl⟩ := wireField?_eq_some found
      exact ⟨⟨json, kept⟩, by rw [found, Option.isSome_some]⟩
    · rintro ⟨⟨json, kept⟩, on_wire⟩
      obtain ⟨field, found⟩ := Option.isSome_iff_exists.mp on_wire
      exact ⟨(field, json), mem_wireMembers.mpr ⟨name, kept, found⟩,
        (wireField?_eq_some found).2.2⟩
  rw [written, mem_names_expanded expansion distinct, WritesName, or_and_right]
  refine or_congr_right ⟨fun moved => moved.1, fun moved => ⟨moved, ?_⟩⟩
  obtain ⟨tag, moves⟩ := moved
  exact wireField?_of_moves lawful moves

variable (registry) in
/-- The normal form of an object that is written has its frame. -/
def KeepsFrame (members : List (String × Json)) : Prop :=
  ∀ bytes normal, registry.fieldBytes false (.object members) = .ok bytes →
    registry.normalForm members = .ok normal → registry.SameFrame members normal

theorem sameElements_of_itemForms {items results : List Json} {parts : List Bytes}
    (made : List.Forall₂ (fun item part => registry.itemBytes item = .ok part) items parts)
    (each : List.Forall₂ (ItemForm registry.normalForm) items results)
    (nested : ∀ name inner, .object [(name, .object inner)] ∈ items → registry.KeepsFrame inner) :
    registry.SameElements items results := by
  induction each generalizing parts with
  | nil => exact .nil
  | cons form _ ih =>
    obtain ⟨name, inner, result, rfl, normalized, rfl⟩ := form
    obtain ⟨part, parts, made_first, made_rest, rfl⟩ := List.forall₂_cons_left_iff.mp made
    obtain ⟨_, _, _, _, body, same, -, -, -, -, accepted, -⟩ :=
      registry.itemBytes_eq_ok.mp made_first
    cases same
    exact .cons (nested name inner List.mem_cons_self body result accepted normalized)
      (ih made_rest fun name inner member => nested name inner (List.mem_cons_of_mem _ member))

theorem sameShape_of_normalValue {emptied : Bool} {field : Field} {json result : Json}
    {part : Bytes} (made : registry.memberBytes emptied field json = .ok part)
    (normalized : registry.normalValue emptied field json
      (fun inner _ => registry.normalForm inner) = .ok result)
    (object : ∀ inner, field.wireType? = some .object → json = .object inner →
      registry.KeepsFrame inner)
    (array : ∀ items name inner, field.wireType? = some .array → json = .array items →
      .object [(name, .object inner)] ∈ items → registry.KeepsFrame inner) :
    registry.SameShape field.wireType? json result := by
  obtain ⟨value, -, built, -⟩ := value_of_memberBytes made
  rcases typed : field.wireType? with _ | _ | _ | _
  · exact .plain nofun nofun
  · exact .plain nofun nofun
  · obtain ⟨body, accepted, -⟩ := (valueOf_object_eq_ok typed).mp built
    obtain ⟨inner, -, -, rfl, -⟩ := registry.fieldBytes_eq_ok.mp accepted
    rw [normalValue_object typed] at normalized
    obtain ⟨normal, normal_inner, rfl⟩ := map_eq_ok.mp normalized
    exact .object (object inner typed rfl body normal accepted normal_inner)
  · obtain ⟨items, parts, rfl, made_items, -⟩ := (valueOf_array_eq_ok typed).mp built
    obtain ⟨results, each, rfl⟩ := (normalValue_array_eq_ok typed).mp normalized
    exact .array (sameElements_of_itemForms made_items each fun name inner =>
      array items name inner typed rfl)

theorem keepsFrame_of_nested (lawful : registry.Lawful) (distinct : DistinctNames members)
    (nested : ∀ inner, registry.Nested members inner → registry.KeepsFrame inner) :
    registry.KeepsFrame members := by
  intro bytes normal accepted normalized
  obtain ⟨expanded, expansion, each⟩ := normalForm_eq_ok.mp normalized
  obtain ⟨_, _, parts, object, same_expansion, made, -⟩ := registry.fieldBytes_eq_ok.mp accepted
  cases object
  rw [expansion] at same_expansion
  cases same_expansion
  refine .intro (distinctNames_normalForm (distinctNames_expanded expansion distinct) each)
    (mem_names_normalForm lawful distinct expansion each)
    fun name json result member in_normal => ?_
  obtain ⟨⟨field, value⟩, in_wire, rfl, made_normal⟩ := exists_left_of_mem each in_normal
  obtain ⟨part, -, made_part⟩ := exists_right_of_mem made in_wire
  obtain ⟨_, -, found⟩ := mem_wireMembers.mp in_wire
  obtain ⟨-, -, rfl⟩ := wireField?_eq_some found
  have typed : registry.memberType? field.name = field.wireType? := by
    rw [memberType?, found, Option.bind_some]
  -- A container is the same before and after the addresses beside it are expanded.
  have kept (container : ¬ value.IsAtom) : json = value := by
    have inside := (mem_of_mem_wireMembers expansion in_wire container).1
    have here := lookup_of_mem distinct inside
    rw [lookup_of_mem distinct member] at here
    exact Option.some.inj here
  have in_members (container : ¬ value.IsAtom) : (field.name, value) ∈ members :=
    kept container ▸ member
  have shape := sameShape_of_normalValue made_part made_normal
    (by
      rintro inner object rfl
      exact nested inner (.object (in_members (not_isAtom_object inner)) (typed.trans object)))
    (by
      rintro items name inner array rfl item
      exact nested inner (.element (in_members (not_isAtom_array items)) (typed.trans array) item))
  rw [typed]
  rcases field_type : field.wireType? with _ | _ | _ | _
  · exact .plain (by simp) (by simp)
  · exact .plain (by simp) (by simp)
  · rwa [kept (container_of_memberBytes field_type (by simp) made_part), ← field_type]
  · rwa [kept (container_of_memberBytes field_type (by simp) made_part), ← field_type]

theorem keepsFrame (lawful : registry.Lawful)
    (distinct : ∀ level, registry.Level members level → DistinctNames level) :
    registry.KeepsFrame members := by
  induction members using registry.level_induction with
  | step members ih =>
    exact keepsFrame_of_nested lawful (distinct members .refl) fun inner nested =>
      ih inner nested fun level inside => distinct level (.head nested inside)

theorem SameElements.exists_of_mem {items other_items : List Json}
    (same : registry.SameElements items other_items) {name : String}
    {inner : List (String × Json)} (member : .object [(name, .object inner)] ∈ items) :
    ∃ other, .object [(name, .object other)] ∈ other_items ∧ registry.SameFrame inner other := by
  induction items generalizing other_items with
  | nil => cases member
  | cons item items ih =>
    cases same with
    | @cons _ _ other _ _ frame rest =>
      rcases List.mem_cons.mp member with here | later
      · cases here
        exact ⟨other, List.mem_cons_self, frame⟩
      · obtain ⟨other, in_rest, frame⟩ := ih rest later
        exact ⟨other, List.mem_cons_of_mem _ in_rest, frame⟩

theorem SameFrame.exists_member (same : registry.SameFrame members others) {name : String}
    {json : Json} {type : WireType} (member : (name, json) ∈ members)
    (typed : registry.memberType? name = some type) :
    ∃ other, (name, other) ∈ others ∧ registry.SameShape (some type) json other := by
  obtain ⟨-, names, shapes⟩ := same
  obtain ⟨field, found, -⟩ := memberType?_eq_some.mp typed
  have written : registry.WritesName members name :=
    .inl ⟨List.mem_map.mpr ⟨_, member, rfl⟩, by rw [found, Option.isSome_some]⟩
  obtain ⟨⟨_, other⟩, in_others, rfl⟩ := List.mem_map.mp ((names name).mpr written)
  exact ⟨other, in_others, typed ▸ shapes _ json other member in_others⟩

theorem SameFrame.exists_nested (same : registry.SameFrame members others)
    {inner : List (String × Json)} (nested : registry.Nested members inner) :
    ∃ other, registry.Nested others other ∧ registry.SameFrame inner other := by
  cases nested with
  | object member typed =>
    obtain ⟨other, in_others, shape⟩ := same.exists_member member typed
    cases shape with
    | object frame => exact ⟨_, .object in_others typed, frame⟩
    | plain no_object => exact absurd rfl no_object
  | element member typed item =>
    obtain ⟨other, in_others, shape⟩ := same.exists_member member typed
    cases shape with
    | array elements =>
      obtain ⟨body, in_items, frame⟩ := elements.exists_of_mem item
      exact ⟨body, .element in_others typed in_items, frame⟩
    | plain _ no_array => exact absurd rfl no_array

theorem wireField?_objectEnd (lawful : registry.Lawful) :
    (registry.wireField? false objectEndName).isSome = true := by
  obtain ⟨field, found, coded⟩ := Option.bind_eq_some_iff.mp lawful.objectMarker
  have serialized := (codes_of_header? coded).1
  rw [wireField?, found, Option.filter_some, if_pos (by simp [serialized]), Option.isSome_some]

theorem SameFrame.unmarked (lawful : registry.Lawful) (same : registry.SameFrame members others)
    (unmarked : ∀ level, registry.Level others level → ∀ member ∈ level, member.1 ≠ objectEndName)
    {level : List (String × Json)} (inside : registry.Level members level) :
    ∀ member ∈ level, member.1 ≠ objectEndName := by
  induction inside using Relation.ReflTransGen.head_induction_on generalizing others with
  | refl =>
    rintro ⟨name, json⟩ member rfl
    obtain ⟨-, names, -⟩ := same
    have written : registry.WritesName level objectEndName :=
      .inl ⟨List.mem_map.mpr ⟨_, member, rfl⟩, wireField?_objectEnd lawful⟩
    obtain ⟨other, in_others, named⟩ := List.mem_map.mp ((names _).mpr written)
    exact unmarked others .refl other in_others named
  | head nested _ ih =>
    obtain ⟨other, nested_other, frame⟩ := same.exists_nested nested
    exact ih frame fun level inside => unmarked level (.head nested_other inside)

theorem level_single {name : String} {json : Json} {level : List (String × Json)}
    (inside : registry.Level [(name, json)] level) :
    level = [(name, json)] ∨ ∃ inner, json.Body inner ∧ registry.Level inner level := by
  rcases inside.cases_head with rfl | ⟨inner, nested, deeper⟩
  · exact .inl rfl
  · refine .inr ⟨inner, ?_, deeper⟩
    cases nested with
    | object member =>
      cases List.mem_singleton.mp member
      exact .object inner
    | element member _ item =>
      cases List.mem_singleton.mp member
      exact .element item

theorem body_element {name : String} {inner body : List (String × Json)}
    (h : (Json.array [.object [(name, .object inner)]]).Body body) : body = inner := by
  cases h with
  | element item =>
    cases List.mem_singleton.mp item
    rfl

def memoList (name : String) (body : List (String × Json)) : List (String × Json) :=
  [(name, .array [.object [("Memo", .object body)]])]

theorem level_memoList {name inner : String} {json : Json} {level : List (String × Json)}
    (inside : registry.Level (memoList name [(inner, json)]) level) :
    level = memoList name [(inner, json)] ∨ level = [(inner, json)] ∨
      ∃ body, json.Body body ∧ registry.Level body level := by
  rcases level_single inside with rfl | ⟨_, body, deeper⟩
  · exact .inl rfl
  · obtain rfl := body_element body
    exact .inr (level_single deeper)

theorem level_nil {level : List (String × Json)} (inside : registry.Level [] level) :
    level = [] := by
  rcases inside.cases_head with rfl | ⟨inner, nested, -⟩
  · rfl
  · cases nested with
    | object member => cases member
    | element member => cases member

theorem checked_memoLists :
    (bundled.encode (.object (memoList arrayEndName memo)) =
        .ok [0xF1, 0xEA, 0x7D, 0x01, 0xAB, 0xE1, 0xF1] ∧
      bundled.nestingOfMembers (memoList arrayEndName memo) ≤ maxNesting) ∧
    (bundled.encode (.object (memoList "Memos" [(objectEndName, .object [])])) =
        .ok [0xF9, 0xEA, 0xE1, 0xE1, 0xE1, 0xF1] ∧
      bundled.nestingOfMembers (memoList "Memos" [(objectEndName, .object [])]) ≤ maxNesting) ∧
    bundled.memberType? arrayEndName = some .array ∧
    bundled.memberType? objectEndName = some .object ∧
    bundled.memberType? "Memos" = some .array ∧
    bundled.memberType? "MemoData" = some (.leaf .blob) := by
  rw [bundled_eq]
  decide +kernel

/-- What is encoded is decoded with its frame, whatever names its members have, unless an object
that is serialized has a member with the name of the end marker of objects: that one is read as
the end marker. -/
theorem decode_sameFrame_iff_unmarked (members : List (String × Json)) (bytes : Bytes)
    (distinct : ∀ level, bundled.Level members level → DistinctNames level)
    (no_asset : ∀ level, bundled.Level members level → ∀ member ∈ level,
      bundled.memberType? member.1 ≠ some (.leaf .asset))
    (no_bridge : ∀ level, bundled.Level members level → ∀ member ∈ level,
      bundled.memberType? member.1 ≠ some (.leaf .bridge))
    (shallow : bundled.nestingOfMembers members ≤ maxNesting)
    (accepted : bundled.encode (.object members) = .ok bytes) :
    (∃ decoded, bundled.decode (Hex.encode bytes) = .ok (.object decoded) ∧
      bundled.SameFrame members decoded) ↔
    ∀ level, bundled.Level members level → ∀ member ∈ level, member.1 ≠ objectEndName := by
  constructor
  · rintro ⟨decoded, read, same⟩ level inside
    rw [decode_hex] at read
    obtain ⟨_, object, shape⟩ := decoded_of_decodeBytes bundled_lawful read
    cases object
    exact same.unmarked bundled_lawful (fun level inside => (shape.stored level inside).unmarked)
      inside
  · intro unmarked
    have regular (level : List (String × Json)) (inside : bundled.Level members level) :
        bundled.Regular level :=
      regular_of_types bundled_lawful (distinct level inside) (unmarked level inside)
        (no_asset level inside) (no_bridge level inside)
    obtain ⟨normal, normalized, shown⟩ := readsBack bundled_lawful regular bytes accepted
    exact ⟨normal, (decode_hex bytes).trans (shown.decodeBytes shallow),
      keepsFrame bundled_lawful distinct bytes normal accepted normalized⟩

/-- An array with the name of the end marker of arrays is read back like any other. -/
theorem decode_sameFrame_arrayEnd :
    ∃ decoded, bundled.decode (Hex.encode [0xF1, 0xEA, 0x7D, 0x01, 0xAB, 0xE1, 0xF1]) =
      .ok (.object decoded) ∧ bundled.SameFrame (memoList arrayEndName memo) decoded := by
  obtain ⟨⟨accepted, shallow⟩, -, array, -, -, blob⟩ := checked_memoLists
  have levels {level : List (String × Json)}
      (inside : bundled.Level (memoList arrayEndName memo) level) :
      level = memoList arrayEndName memo ∨ level = memo := by
    rcases level_memoList inside with same | same | ⟨body, inside, -⟩
    · exact .inl same
    · exact .inr same
    · cases inside
  refine (decode_sameFrame_iff_unmarked _ _ ?_ ?_ ?_ shallow accepted).mpr ?_
  · intro level inside
    rcases levels inside with rfl | rfl <;> decide
  · intro level inside
    rcases levels inside with rfl | rfl <;> simp [memoList, memo, array, blob]
  · intro level inside
    rcases levels inside with rfl | rfl <;> simp [memoList, memo, array, blob]
  · intro level inside
    rcases levels inside with rfl | rfl <;> decide

/-- An empty object with the name of the end marker of objects is written, and the memo that it
stands in is not decoded with its frame. -/
theorem marked_memo_loses_frame :
    bundled.encode (.object (memoList "Memos" [(objectEndName, .object [])])) =
      .ok [0xF9, 0xEA, 0xE1, 0xE1, 0xE1, 0xF1] ∧
    bundled.nestingOfMembers (memoList "Memos" [(objectEndName, .object [])]) ≤ maxNesting ∧
    (∀ level, bundled.Level (memoList "Memos" [(objectEndName, .object [])]) level →
      DistinctNames level ∧ ∀ member ∈ level,
        bundled.memberType? member.1 ≠ some (.leaf .asset) ∧
        bundled.memberType? member.1 ≠ some (.leaf .bridge)) ∧
    ¬ ∃ decoded, bundled.decode (Hex.encode [0xF9, 0xEA, 0xE1, 0xE1, 0xE1, 0xF1]) =
      .ok (.object decoded) ∧
      bundled.SameFrame (memoList "Memos" [(objectEndName, .object [])]) decoded := by
  obtain ⟨-, ⟨accepted, shallow⟩, -, object, array, -⟩ := checked_memoLists
  refine ⟨accepted, shallow, fun level inside => ?_, ?_⟩
  · rcases level_memoList inside with rfl | rfl | ⟨_, body, deeper⟩
    · exact ⟨by decide, by simp [memoList, array]⟩
    · exact ⟨by decide, by simp [object]⟩
    · cases body
      rw [level_nil deeper]
      exact ⟨by decide, by simp⟩
  · rintro ⟨decoded, read, same⟩
    rw [decode_hex] at read
    obtain ⟨_, same_object, shape⟩ := decoded_of_decodeBytes bundled_lawful read
    cases same_object
    have memo_inside : bundled.Level (memoList "Memos" [(objectEndName, .object [])])
        [(objectEndName, .object [])] :=
      .single (.element List.mem_cons_self array List.mem_cons_self)
    exact same.unmarked bundled_lawful
      (fun level inside => (shape.stored level inside).unmarked) memo_inside _
      List.mem_cons_self rfl

end LedgerWire.Registry
