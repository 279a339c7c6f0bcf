import LedgerWire.Proofs.Levels
import LedgerWire.Proofs.ReadBack

namespace LedgerWire.Registry
variable {registry : Registry}

inductive ReadAs : WireType → Value → Prop
  | leaf {leaf : Leaf} : leaf.Canonical → ReadAs (.leaf leaf.type) (.leaf leaf)
  | object (bytes : Bytes) : ReadAs .object (.object bytes)
  | array (bytes : Bytes) : ReadAs .array (.array bytes)

variable (registry) in
/-- A field of the registry with a value of its type. -/
structure EntryRead (entry : Entry) : Prop where
  known : registry.Known entry.field
  opens : entry.field.name ≠ objectEndName
  value : ∃ type, entry.field.wireType? = some type ∧ ReadAs type entry.value

theorem known_of_read {before after : Cursor} {field : Field}
    (h : Reader.field registry before = .ok field after) :
    registry.Known field := by
  obtain ⟨header, middle, -, named⟩ := Reader.bind_eq_ok.mp h
  exact (known_of_fieldOfHeader (Reader.ofExcept_eq_ok.mp named).1).1

theorem readAs_of_valueAt {rounds levels : Nat} {field : Field} {before after : Cursor}
    {value : Value} (h : Reader.valueAt registry rounds levels field before = .ok value after) :
    ∃ type, field.wireType? = some type ∧ ReadAs type value := by
  cases found : field.wireType? with
  | none =>
    obtain ⟨type, middle, typed, -⟩ := Reader.bind_eq_ok.mp h
    rw [Field.wireType, found] at typed
    cases typed
  | some type =>
    refine ⟨type, rfl, ?_⟩
    rw [valueAt_eq found] at h
    obtain ⟨announced, middle, -, h⟩ := Reader.bind_eq_ok.mp h
    cases type with
    | leaf type =>
      obtain ⟨leaf, read, rfl⟩ := Reader.bind_pure_eq_ok.mp h
      obtain ⟨canonical, rfl⟩ := Leaf.canonical_of_read read
      exact .leaf canonical
    | object =>
      obtain ⟨result, -, rfl⟩ := Reader.bind_pure_eq_ok.mp h
      exact .object _
    | array =>
      obtain ⟨result, -, rfl⟩ := Reader.bind_pure_eq_ok.mp h
      exact .array _

theorem entryRead_of_entriesWith {readValue : Field → Reader Value}
    (typed : ∀ field before after value, readValue field before = .ok value after →
      ∃ type, field.wireType? = some type ∧ ReadAs type value)
    {rounds : Nat} {before after : Cursor} {entries : List Entry}
    (h : Reader.entriesWith registry readValue rounds before = .ok entries after) :
    ∀ entry ∈ entries, registry.EntryRead entry := by
  induction rounds generalizing before entries with
  | zero =>
    cases h
    simp
  | succ rounds ih =>
    cases (entriesWith_eq_ok readValue).mp h with
    | exhausted => simp
    | objectEnd => simp
    | entry named opens value_read others_read =>
      intro entry member
      rcases List.mem_cons.mp member with rfl | member
      · exact ⟨known_of_read named, opens, typed _ _ _ _ value_read⟩
      · exact ih others_read entry member

theorem entryRead_of_entries {rounds levels : Nat} {bytes : Bytes} {entries : List Entry}
    (h : (Reader.entries registry rounds levels).runOn bytes = .ok entries) :
    ∀ entry ∈ entries, registry.EntryRead entry := by
  obtain ⟨after, read⟩ := exists_of_runOn h
  cases levels with
  | zero => cases read
  | succ levels =>
    rw [entries_succ] at read
    exact entryRead_of_entriesWith (fun _ _ _ _ => readAs_of_valueAt) read

variable (registry) in
def RenderedLeaf (name : String) (json : Json) : Prop :=
  ∃ field leaf, registry.wireField? false name = some field ∧ leaf.Canonical ∧
    field.wireType? = some (.leaf leaf.type) ∧ registry.render field (.leaf leaf) = .ok json

variable (registry) in
/-- The members of an object that was read. -/
structure Stored (members : List (String × Json)) : Prop where
  distinct : DistinctNames members
  unmarked : ∀ member ∈ members, member.1 ≠ objectEndName
  leaves : ∀ member ∈ members, ∀ type, registry.memberType? member.1 = some (.leaf type) →
    registry.RenderedLeaf member.1 member.2
  untaggable : ∀ member ∈ members, member.2.Untaggable

variable (registry) in
/-- An object that was read where so many containers may be opened, itself included. -/
structure Decoded (levels : Nat) (members : List (String × Json)) : Prop where
  shallow : registry.nestingOfMembers members < levels
  stored : ∀ level, registry.Level members level → registry.Stored level

theorem Decoded.untaggable {levels : Nat} {members : List (String × Json)}
    (h : registry.Decoded levels members) : (Json.object members).Untaggable :=
  Json.untaggable_object (h.stored members .refl).untaggable

variable (registry) in
inductive DecodedMember (levels : Nat) (name : String) : Json → Prop
  | leaf {json : Json} : registry.RenderedLeaf name json → DecodedMember levels name json
  | object {inner : List (String × Json)} : registry.memberType? name = some .object →
      registry.Decoded levels inner → DecodedMember levels name (.object inner)
  | array {items : List Json} : registry.memberType? name = some .array → 0 < levels →
      (∀ item ∈ items, ∃ element inner, item = .object [(element, .object inner)] ∧
        registry.Decoded (levels - 1) inner) → DecodedMember levels name (.array items)

section Members
variable {levels : Nat}

theorem memberType?_of_renderedLeaf {name : String} {json : Json}
    (h : registry.RenderedLeaf name json) :
    ∃ type, registry.memberType? name = some (.leaf type) := by
  obtain ⟨field, leaf, found, -, typed, -⟩ := h
  exact ⟨leaf.type, memberType?_eq_some.mpr ⟨field, found, typed⟩⟩

theorem untaggable_of_renderedLeaf (lawful : registry.Lawful) {name : String} {json : Json}
    (h : registry.RenderedLeaf name json) : json.Untaggable := by
  obtain ⟨field, leaf, -, canonical, -, rendered⟩ := h
  exact untaggable_render lawful canonical rendered

namespace DecodedMember
variable {name : String} {json : Json}

theorem shallow (h : registry.DecodedMember levels name json) :
    registry.nestingOf (registry.memberType? name) json ≤ levels := by
  cases h with
  | leaf rendered =>
    obtain ⟨type, typed⟩ := memberType?_of_renderedLeaf rendered
    rw [typed]
    exact Nat.zero_le levels
  | object typed decoded =>
    rw [typed, nestingOf, nesting]
    exact decoded.shallow
  | array typed positive each =>
    rw [typed, nestingOf, nestingOfArray]
    obtain ⟨levels, rfl⟩ := Nat.exists_eq_add_one_of_ne_zero (Nat.ne_of_gt positive)
    refine Nat.succ_le_succ (nestingOfItems_le.mpr fun element body member => ?_)
    obtain ⟨_, inner, same, decoded⟩ := each _ member
    cases same
    rw [nesting]
    exact decoded.shallow

theorem untaggable (lawful : registry.Lawful) (h : registry.DecodedMember levels name json) :
    json.Untaggable := by
  cases h with
  | leaf rendered => exact untaggable_of_renderedLeaf lawful rendered
  | object typed decoded => exact decoded.untaggable
  | array typed positive each =>
    apply Json.untaggable_array
    intro item member
    obtain ⟨element, inner, rfl, decoded⟩ := each item member
    apply Json.untaggable_object
    intro entry only
    rw [List.mem_singleton.mp only]
    exact decoded.untaggable

theorem renderedLeaf (h : registry.DecodedMember levels name json) {type : LeafType}
    (typed : registry.memberType? name = some (.leaf type)) : registry.RenderedLeaf name json := by
  cases h with
  | leaf rendered => exact rendered
  | object container =>
    rw [typed] at container
    cases container
  | array container =>
    rw [typed] at container
    cases container

end DecodedMember

theorem decoded_succ (lawful : registry.Lawful) {members : List (String × Json)}
    (distinct : DistinctNames members) (unmarked : ∀ member ∈ members, member.1 ≠ objectEndName)
    (each : ∀ member ∈ members, registry.DecodedMember levels member.1 member.2) :
    registry.Decoded (levels + 1) members := by
  constructor
  · rw [Nat.lt_succ_iff, nestingOfMembers_le]
    exact fun member inside => (each member inside).shallow
  · intro level inside
    rcases inside.cases_head with rfl | ⟨inner, nested, deeper⟩
    · exact ⟨distinct, unmarked,
        fun member inside type typed => (each member inside).renderedLeaf typed,
        fun member inside => (each member inside).untaggable lawful⟩
    · cases nested with
      | object member typed =>
        cases each _ member with
        | leaf rendered =>
          obtain ⟨type, leaf_typed⟩ := memberType?_of_renderedLeaf rendered
          rw [typed] at leaf_typed
          cases leaf_typed
        | object _ decoded => exact decoded.stored level deeper
      | element member typed item =>
        cases each _ member with
        | leaf rendered =>
          obtain ⟨type, leaf_typed⟩ := memberType?_of_renderedLeaf rendered
          rw [typed] at leaf_typed
          cases leaf_typed
        | array _ _ items =>
          obtain ⟨_, _, same, decoded⟩ := items _ item
          cases same
          exact decoded.stored level deeper

end Members

theorem decodedMember_of_renderEntry (lawful : registry.Lawful) {levels : Nat}
    (object : ∀ bytes json, registry.renderObject levels bytes = .ok json →
      ∃ members, json = .object members ∧ registry.Decoded levels members)
    (array : ∀ bytes json, registry.renderArray levels bytes = .ok json →
      ∃ items, json = .array items ∧ 0 < levels ∧ ∀ item ∈ items, ∃ element inner,
        item = .object [(element, .object inner)] ∧ registry.Decoded (levels - 1) inner)
    {entry : Entry} (read : registry.EntryRead entry) {member : String × Json}
    (made : registry.renderEntry levels entry = .ok member) :
    member.1 ≠ objectEndName ∧ registry.DecodedMember levels member.1 member.2 := by
  obtain ⟨field, value⟩ := entry
  obtain ⟨json, rendered, same⟩ := bind_eq_ok.mp made
  cases same
  have found := read.known.wireField? lawful
  refine ⟨read.opens, ?_⟩
  obtain ⟨type, typed, read_as⟩ := read.value
  have member_type : registry.memberType? field.name = some type :=
    memberType?_eq_some.mpr ⟨field, found, typed⟩
  cases read_as with
  | leaf canonical =>
    exact .leaf ⟨field, _, found, canonical, typed, (renderWith_leaf ..).symm.trans rendered⟩
  | object bytes =>
    obtain ⟨inner, rfl, decoded⟩ :=
      object bytes json ((renderWith_container ..).1.symm.trans rendered)
    exact .object member_type decoded
  | array bytes =>
    obtain ⟨items, rfl, positive, each⟩ :=
      array bytes json ((renderWith_container ..).2.symm.trans rendered)
    exact .array member_type positive each

theorem decoded_of_render (lawful : registry.Lawful) (levels : Nat) :
    (∀ bytes json, registry.renderObject levels bytes = .ok json →
      ∃ members, json = .object members ∧ registry.Decoded levels members) ∧
    ∀ bytes json, registry.renderArray levels bytes = .ok json →
      ∃ items, json = .array items ∧ 0 < levels ∧ ∀ item ∈ items, ∃ element inner,
        item = .object [(element, .object inner)] ∧ registry.Decoded (levels - 1) inner := by
  -- Objects and arrays at once: each opens the other with one level less.
  induction levels with
  | zero => exact ⟨nofun, nofun⟩
  | succ levels ih =>
    obtain ⟨object, array⟩ := ih
    constructor
    · intro bytes json h
      obtain ⟨entries, read, h⟩ := bind_eq_ok.mp h
      obtain ⟨rendered, each, h⟩ := bind_eq_ok.mp h
      cases h
      -- Setting members keeps the last value of each name, and that value was rendered as well.
      have members (member : String × Json) (inside : member ∈ edited rendered []) :
          member.1 ≠ objectEndName ∧ registry.DecodedMember levels member.1 member.2 := by
        have in_rendered := (mem_of_mem_edited inside).resolve_right nofun
        obtain ⟨entry, in_entries, made⟩ := exists_left_of_mem (mapM_eq_ok.mp each) in_rendered
        exact decodedMember_of_renderEntry lawful object array
          (entryRead_of_entries read entry in_entries) made
      exact ⟨edited rendered [], rfl, decoded_succ lawful (distinctNames_edited _ .nil)
        (fun member inside => (members member inside).1)
        fun member inside => (members member inside).2⟩
    · intro bytes json h
      obtain ⟨elements, -, h⟩ := bind_eq_ok.mp h
      obtain ⟨items, each, h⟩ := bind_eq_ok.mp h
      cases h
      refine ⟨items, rfl, Nat.succ_pos levels, fun item inside => ?_⟩
      obtain ⟨element, -, made⟩ := exists_left_of_mem (mapM_eq_ok.mp each) inside
      obtain ⟨body, rendered, made⟩ := bind_eq_ok.mp made
      cases made
      obtain ⟨inner, rfl, decoded⟩ := object _ _ rendered
      exact ⟨element.field.name, inner, rfl, decoded⟩

theorem decoded_of_decodeBytes (lawful : registry.Lawful) {bytes : Bytes} {json : Json}
    (h : registry.decodeBytes bytes = .ok json) :
    ∃ members, json = .object members ∧ registry.Decoded topLevels members := by
  obtain ⟨_, object, _, -, rendered⟩ := decodeBytes_eq_ok.mp h
  exact (decoded_of_render lawful topLevels).1 _ _ rendered

end LedgerWire.Registry
