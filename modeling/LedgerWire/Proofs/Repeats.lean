import LedgerWire.Proofs.MemberOrder
import LedgerWire.Proofs.Occurrences

namespace LedgerWire
namespace Json

/-- Objects at all depths with one member of each name: it has the place of the first one and the
value of the last one. -/
def keyed : Json → Json
  | .array items => .array (items.map fun item => item.keyed)
  | .object members => .object (edited (members.map fun member => (member.1, member.2.keyed)) [])
  | json => json
decreasing_by
  · rename_i inside
    have smaller := List.sizeOf_lt_of_mem inside
    simp only [Json.array.sizeOf_spec]
    omega
  · rename_i inside
    obtain ⟨name, json⟩ := member
    have smaller := List.sizeOf_lt_of_mem inside
    simp only [Json.object.sizeOf_spec, Prod.mk.sizeOf_spec] at smaller ⊢
    omega

theorem distinct_keyed (json : Json) : json.keyed.Distinct := by
  fun_induction keyed json with
  | case1 items ih =>
    refine .array fun item inside => ?_
    obtain ⟨before, member, rfl⟩ := List.mem_map.mp inside
    exact ih before member
  | case2 members ih =>
    refine .object (distinctNames_edited _ .nil) fun member inside => ?_
    have made := (mem_of_mem_edited inside).resolve_right nofun
    obtain ⟨before, in_members, rfl⟩ := List.mem_map.mp made
    exact ih before in_members
  | case3 json no_array no_object =>
    cases json with
    | null => exact .null
    | bool b => exact .bool b
    | number n => exact .number n
    | string text => exact .string text
    | array items => exact (no_array items rfl).elim
    | object members => exact (no_object members rfl).elim

theorem Distinct.keyed {json : Json} (h : json.Distinct) : json.keyed = json := by
  induction h with
  | array _ ih =>
    rw [Json.keyed]
    exact congrArg Json.array ((List.map_congr_left ih).trans (List.map_id _))
  | @object members names _ ih =>
    have same : members.map (fun member => (member.1, member.2.keyed)) = members := by
      refine (List.map_congr_left fun member inside => ?_).trans (List.map_id members)
      exact Prod.ext rfl (ih member inside)
    rw [Json.keyed, same, Registry.edited_nil names]
  | _ => exact Json.keyed.eq_3 _ nofun nofun

theorem keyed_eq_self {json : Json} : json.keyed = json ↔ json.Distinct := by
  refine ⟨fun same => ?_, Distinct.keyed⟩
  rw [← same]
  exact distinct_keyed json

end Json

theorem Asset.distinct (asset : Asset) : asset.toJson.Distinct := by
  cases asset with
  | native => exact .object (by simp [DistinctNames]) (by simp [Json.Distinct.string])
  | issued currency issuer =>
    refine .object (by simp [DistinctNames]) ?_
    simp [Currency.toJson, AccountId.toJson, Json.Distinct.string]
  | token issuer sequence =>
    exact .object (by simp [DistinctNames]) (by simp [Json.Distinct.string])

theorem Bridge.distinct (bridge : Bridge) : bridge.membersJson.Distinct := by
  refine .object (by simp [DistinctNames]) ?_
  simp [AccountId.toJson, Json.Distinct.string, Asset.distinct]

theorem Amount.distinct (amount : Amount) : amount.toJson.Distinct := by
  cases amount with
  | native => exact .string _
  | issued =>
    refine .object (by simp [DistinctNames]) ?_
    simp [Currency.toJson, AccountId.toJson, Json.Distinct.string]

theorem PathSet.distinct (set : PathSet) : set.toJson.Distinct := by
  refine .array fun json member => ?_
  obtain ⟨path, -, rfl⟩ := List.mem_map.mp member
  refine .array fun json member => ?_
  obtain ⟨⟨account, currency, issuer⟩, -, rfl⟩ := List.mem_map.mp member
  apply Json.Distinct.object
  · cases account <;> cases currency <;> cases issuer <;> simp [DistinctNames]
  · cases account <;> cases currency <;> cases issuer <;>
      simp [AccountId.toJson, Currency.toJson, Json.Distinct.string]

theorem Leaf.distinct {leaf : Leaf} (canonical : leaf.Canonical) {json : Json}
    (h : leaf.toJson = .ok json) : json.Distinct := by
  cases leaf with
  | unsigned u =>
    cases h
    unfold Unsigned.toJson
    split
    · exact .string _
    · exact .number _
  | hash value =>
    cases h
    unfold Hash.toJson
    split
    · exact .string _
    · exact .string _
  | blob value =>
    cases h
    exact .string _
  | currency value =>
    cases h
    exact .string _
  | account value =>
    cases h
    exact .string _
  | amount value =>
    cases h
    exact value.distinct
  | asset value =>
    cases h
    exact value.distinct
  | hashes value =>
    cases h
    refine .array fun json member => ?_
    obtain ⟨hash, -, rfl⟩ := List.mem_map.mp member
    exact .string _
  | number value =>
    cases h
    unfold Quantity.toJson
    split
    · exact .string _
    · exact .string _
  | paths value =>
    cases h
    exact value.distinct
  | bridge value =>
    rw [toJson, Bridge.toJson_of_canonical canonical] at h
    cases h
    exact value.distinct

namespace Registry
variable {registry : Registry}

theorem distinct_render {field : Field} {leaf : Leaf} (canonical : leaf.Canonical) {json : Json}
    (rendered : registry.render field (.leaf leaf) = .ok json) : json.Distinct := by
  obtain ⟨name, -, same⟩ | ⟨u, -, -, same⟩ | plain := render_cases field leaf
  · rw [same] at rendered
    cases rendered
    exact .string _
  · rw [same] at rendered
    cases rendered
    exact .string _
  · rw [plain] at rendered
    exact Leaf.distinct canonical rendered

variable (registry) in
def ElementOccurs (element : Element) (item : Json) : Prop :=
  ∃ json, item = .object [(element.field.name, json)] ∧
    registry.Occurrences .object element.body [] json

theorem elementOccurs_of_stored (lawful : registry.Lawful) {rounds left : Nat}
    {inner : Reader (List Entry)} (object : registry.FindsObject rounds inner)
    {before after : Cursor} {rest : Bytes} {json : Json} {elements : List Element}
    (occurs : registry.Occurrences .array before.rest rest json)
    (enough : before.rest.length ≤ left) (bound : before.rest.length ≤ rounds)
    (h : registry.storedElements inner left before = .ok elements after) :
    ∃ items, json = .array items ∧ List.Forall₂ registry.ElementOccurs elements items := by
  induction left generalizing before json elements with
  | zero => exact absurd (List.length_eq_zero_iff.mp (Nat.le_zero.mp enough)) occurs.array_ne_nil
  | succ left ih =>
    rw [storedElements] at h
    obtain ⟨_, _, got, h⟩ := Reader.bind_eq_ok.mp h
    cases got
    rw [if_neg (by simpa using occurs.array_ne_nil)] at h
    obtain ⟨field, named, field_read, h⟩ := Reader.bind_eq_ok.mp h
    obtain ⟨heads, front, field_passed, nonempty⟩ := heads_of_read field_read
    have fewer := field_passed.length_lt nonempty
    cases occurs with
    | arrayEnd heads' ends =>
      obtain ⟨rfl, -⟩ := heads.unique lawful heads'
      rw [if_pos ends] at h
      cases h
      exact ⟨[], rfl, .nil⟩
    | element heads' opens _ inside others =>
      obtain ⟨rfl, rfl⟩ := heads.unique lawful heads'
      rw [if_neg opens] at h
      obtain ⟨⟨entries, body⟩, passed_body, body_read, h⟩ := Reader.bind_eq_ok.mp h
      obtain ⟨more, more_read, rfl⟩ := Reader.bind_pure_eq_ok.mp h
      obtain ⟨entries_read, rfl⟩ := Reader.consumed_eq_ok body_read
      obtain ⟨bytes, members, body_passed, found, -⟩ :=
        object named passed_body entries (by omega) entries_read
      obtain ⟨rfl, rfl⟩ := found.unique lawful inside
      have shorter := body_passed.length_le
      obtain ⟨items, same, matched⟩ := ih others (by omega) (by omega) more_read
      cases same
      rw [body_passed.consumed]
      exact ⟨_, rfl, .cons ⟨_, rfl, found.alone body_passed⟩ matched⟩

section Render
variable {levels : Nat}
  (object : ∀ bytes json occurring, registry.Occurrences .object bytes [] occurring →
    registry.renderObject levels bytes = .ok json → json = occurring.keyed)

include object in
theorem keyed_of_renderEntry
    (array : ∀ bytes json occurring, registry.Occurrences .array bytes [] occurring →
      registry.renderArray levels bytes = .ok json → json = occurring.keyed)
    {entry : Entry} {member made : String × Json}
    (h : registry.renderEntry levels entry = .ok made)
    (occurs : registry.EntryOccurs entry member) :
    (member.1, member.2.keyed) = made := by
  obtain ⟨json, rendered, same⟩ := bind_eq_ok.mp h
  cases same
  cases occurs with
  | leaf canonical same =>
    rw [renderWith_leaf, same] at rendered
    cases rendered
    exact Prod.ext rfl (distinct_render canonical same).keyed
  | object inside =>
    rw [(renderWith_container ..).1] at rendered
    exact Prod.ext rfl (object _ _ _ inside rendered).symm
  | array inside =>
    rw [(renderWith_container ..).2] at rendered
    exact Prod.ext rfl (array _ _ _ inside rendered).symm

include object in
theorem keyed_of_renderElement {element : Element} {item json : Json}
    (h : registry.renderObject levels element.body = .ok json)
    (occurs : registry.ElementOccurs element item) :
    item.keyed = .object [(element.field.name, json)] := by
  obtain ⟨inner, rfl, inside⟩ := occurs
  rw [object _ _ _ inside h, Json.keyed]
  rfl

end Render

theorem keyed_of_render (lawful : registry.Lawful) (levels : Nat) :
    (∀ bytes json occurring, registry.Occurrences .object bytes [] occurring →
      registry.renderObject levels bytes = .ok json → json = occurring.keyed) ∧
    ∀ bytes json occurring, registry.Occurrences .array bytes [] occurring →
      registry.renderArray levels bytes = .ok json → json = occurring.keyed := by
  -- Objects and arrays at once: each opens the other with one level less.
  induction levels with
  | zero => exact ⟨nofun, nofun⟩
  | succ levels ih =>
    obtain ⟨object, array⟩ := ih
    constructor
    · intro bytes json occurring occurs h
      obtain ⟨entries, read, h⟩ := bind_eq_ok.mp h
      obtain ⟨rendered, each, h⟩ := bind_eq_ok.mp h
      cases h
      obtain ⟨after, read⟩ := exists_of_runOn read
      obtain ⟨-, members, -, found, matched⟩ :=
        (finds lawful bytes.length (levels + 1)).1 _ _ _ (Nat.le_refl _) read
      obtain ⟨rfl, -⟩ := found.unique lawful occurs
      have same : members.map (fun member => (member.1, member.2.keyed)) = rendered := by
        rw [← List.forall₂_eq_eq_eq, List.forall₂_map_left_iff]
        exact forall₂_join (mapM_eq_ok.mp each) matched fun _ _ _ _ =>
          keyed_of_renderEntry object array
      rw [Json.keyed, same]
      rfl
    · intro bytes json occurring occurs h
      obtain ⟨elements, read, h⟩ := bind_eq_ok.mp h
      obtain ⟨rendered, each, h⟩ := bind_eq_ok.mp h
      cases h
      obtain ⟨after, read⟩ := exists_of_runOn read
      have enough : (Cursor.start bytes).rest.length ≤ bytes.length := Nat.le_refl _
      obtain ⟨items, rfl, matched⟩ := elementOccurs_of_stored lawful
        (finds lawful bytes.length levels).1 occurs enough enough read
      have same : items.map (fun item => item.keyed) = rendered := by
        rw [← List.forall₂_eq_eq_eq, List.forall₂_map_left_iff]
        refine forall₂_join (mapM_eq_ok.mp each) matched fun element _ made item h occurs => ?_
        obtain ⟨body, body_rendered, h⟩ := bind_eq_ok.mp h
        cases h
        exact keyed_of_renderElement object body_rendered occurs
      rw [Json.keyed, same]

/-- What is decoded is what occurs, with one member of each name. -/
theorem occurrences_of_decodeBytes (lawful : registry.Lawful) {bytes : Bytes} {json : Json}
    (h : registry.decodeBytes bytes = .ok json) :
    ∃ members, registry.Occurrences .object bytes [] (.object members) ∧
      json = (Json.object members).keyed := by
  obtain ⟨entries, object, last, read, rendered⟩ := decodeBytes_eq_ok.mp h
  obtain ⟨entries_read, rfl⟩ := Reader.consumed_eq_ok read
  obtain ⟨front, members, passed, occurs, -⟩ :=
    (finds lawful bytes.length topLevels).1 _ _ _ (Nat.le_refl _) entries_read
  obtain rfl : front = bytes := by
    have all := passed.rest
    rw [List.append_nil] at all
    exact all.symm
  rw [passed.consumed] at rendered
  exact ⟨members, occurs, (keyed_of_render lawful topLevels).1 _ _ _ occurs rendered⟩

def flagsLast : Bytes := [0xF9, 0xEA, 0x7D, 0x01, 0xAB, 0xE1, 0xF1, 0x22, 0, 0, 0, 7]

def flagsLastMembers : List (String × Json) :=
  [("Memos", .array [.object [("Memo", .object [("MemoData", .string "AB")])]]),
   ("Flags", .ofNat 7)]

def flagsTwice : Bytes := [0x22, 0, 0, 0, 0, 0x22, 0, 0, 0, 1]

theorem checked_flags : ∃ flags : Field, bundled.wireField? false "Flags" = some flags ∧
    flags.header? = some ⟨2, 2⟩ ∧ flags.wireType? = some (.leaf (.unsigned .four)) ∧
    flags.variableLength = false ∧ (bundled.decodeBytes flagsLast).isOk = true ∧
    (bundled.decodeBytes flagsTwice).isOk = true := by
  rw [bundled_eq]
  exact ⟨⟨"Flags", 2, false, true, true, "UInt32", 2⟩, by decide +kernel⟩

theorem checked_memoData : ∃ memos memo data : Field,
    (bundled.wireField? false "Memos" = some memos ∧ memos.header? = some ⟨15, 9⟩ ∧
      memos.wireType? = some .array) ∧
    (bundled.wireField? false "Memo" = some memo ∧ memo.header? = some ⟨14, 10⟩ ∧
      memo.isObject = true) ∧
    bundled.wireField? false "MemoData" = some data ∧ data.header? = some ⟨7, 13⟩ ∧
    data.wireType? = some (.leaf .blob) ∧ data.variableLength = true := by
  rw [bundled_eq]
  exact ⟨⟨"Memos", 9, false, true, true, "STArray", 15⟩,
    ⟨"Memo", 10, false, true, true, "STObject", 14⟩,
    ⟨"MemoData", 13, true, true, true, "Blob", 7⟩, by decide +kernel⟩

theorem occurs_flags (value : Nat) (fits : value < capacity 4) {rest : Bytes}
    {members : List (String × Json)}
    (others : bundled.Occurrences .object rest [] (.object members)) :
    bundled.Occurrences .object (0x22 :: (beBytes 4 value ++ rest)) []
      (.object (("Flags", .ofNat value) :: members)) := by
  obtain ⟨flags, found, coded, typed, plain, -⟩ := checked_flags
  obtain ⟨-, -, named⟩ := wireField?_eq_some found
  have unnamed : bundled.nameOfValue? flags (.leaf (.unsigned ⟨.four, value, fits⟩)) = none := by
    rw [nameOfValue?, named]
    rfl
  have rendered : bundled.render flags (.leaf (.unsigned ⟨.four, value, fits⟩)) =
      .ok (.ofNat value) := by
    refine render_plain unnamed fun decimal => ?_
    cases decimal.1
  have spelled : bundled.SpelledLeaf flags (beBytes 4 value)
      (.unsigned ⟨.four, value, fits⟩) (.ofNat value) :=
    ⟨typed, trivial, .plain plain, rendered⟩
  rw [← named]
  exact .leaf ⟨known_of_wireField? found, _, coded, rfl⟩ (by rw [named]; decide) spelled others

theorem occurs_flagsLast :
    bundled.Occurrences .object flagsLast [] (.object flagsLastMembers) := by
  obtain ⟨memos, memo, data, ⟨found, coded, typed⟩, ⟨found_memo, coded_memo, object⟩, found_data,
    coded_data, typed_data, lengthened⟩ := checked_memoData
  obtain ⟨-, -, named⟩ := wireField?_eq_some found
  obtain ⟨-, -, named_memo⟩ := wireField?_eq_some found_memo
  obtain ⟨-, -, named_data⟩ := wireField?_eq_some found_data
  have unnamed : bundled.nameOfValue? data (.leaf (.blob ⟨[0xAB]⟩)) = none := by
    rw [nameOfValue?, named_data]
    rfl
  have rendered : bundled.render data (.leaf (.blob ⟨[0xAB]⟩)) = .ok (.string "AB") := by
    refine render_plain unnamed fun decimal => ?_
    cases decimal.1
  have counted : LengthPrefix.encode (Leaf.blob ⟨[0xAB]⟩).toBytes.length = .ok [0x01] := rfl
  have spelled : bundled.SpelledLeaf data [0x01, 0xAB] (.blob ⟨[0xAB]⟩) (.string "AB") :=
    ⟨typed_data, trivial, .lengthened lengthened counted, rendered⟩
  have memo_occurs : bundled.Occurrences .object [0x7D, 0x01, 0xAB, 0xE1, 0xF1, 0x22, 0, 0, 0, 7]
      [0xF1, 0x22, 0, 0, 0, 7] (.object [(data.name, .string "AB")]) :=
    .leaf ⟨known_of_wireField? found_data, _, coded_data, rfl⟩ (by rw [named_data]; decide)
      spelled (Occurrences.closed_object bundled_lawful _)
  have memos_occur : bundled.Occurrences .array
      [0xEA, 0x7D, 0x01, 0xAB, 0xE1, 0xF1, 0x22, 0, 0, 0, 7] [0x22, 0, 0, 0, 7]
      (.array [.object [(memo.name, .object [(data.name, .string "AB")])]]) :=
    .element ⟨known_of_wireField? found_memo, _, coded_memo, rfl⟩ (by rw [named_memo]; decide)
      object memo_occurs (Occurrences.closed_array bundled_lawful _)
  rw [flagsLastMembers, ← named, ← named_memo, ← named_data]
  exact .container ⟨known_of_wireField? found, _, coded, rfl⟩ (by rw [named]; decide) typed
    memos_occur (occurs_flags 7 (by decide) .exhausted)

/-- A buffer that is decoded holds one object, in one way, and nothing else. The decoded value has
that object's members and no others, each at its place, exactly when nothing in it repeats a field.
In any case it has one member of each name, with the place of the first and the value of the last
field of that name. -/
theorem decodeBytes_keeps_occurrences (bytes : Bytes) (json : Json)
    (accepted : bundled.decodeBytes bytes = .ok json) :
    ∃ members,
      (∀ rest other, bundled.Occurrences .object bytes rest other ↔
        other = .object members ∧ rest = []) ∧
      json = (Json.object members).keyed ∧
      (json = .object members ↔ (Json.object members).Distinct) := by
  obtain ⟨members, occurs, rfl⟩ := occurrences_of_decodeBytes bundled_lawful accepted
  refine ⟨members, fun rest other => ⟨fun h => h.unique bundled_lawful occurs, ?_⟩, rfl,
    Json.keyed_eq_self⟩
  rintro ⟨rfl, rfl⟩
  exact occurs

theorem decodeBytes_flagsLast :
    bundled.decodeBytes flagsLast = .ok (.object flagsLastMembers) ∧
    ∀ rest other, bundled.Occurrences .object flagsLast rest other ↔
      other = .object flagsLastMembers ∧ rest = [] := by
  obtain ⟨-, -, -, -, -, accepted, -⟩ := checked_flags
  cases decoded : bundled.decodeBytes flagsLast with
  | error e =>
    rw [decoded] at accepted
    cases accepted
  | ok json =>
    obtain ⟨members, only, -, whole⟩ := decodeBytes_keeps_occurrences _ _ decoded
    obtain ⟨same, -⟩ := (only _ _).mp occurs_flagsLast
    rw [← same] at only whole
    have distinct : (Json.object flagsLastMembers).Distinct := by
      refine .object (by decide) ?_
      simp only [flagsLastMembers, List.forall_mem_cons, List.not_mem_nil, false_implies,
        implies_true, and_true]
      refine ⟨.array fun item inside => ?_, .number _⟩
      rw [List.mem_singleton.mp inside]
      refine .object (by decide) fun member in_item => ?_
      rw [List.mem_singleton.mp in_item]
      refine .object (by decide) fun member in_memo => ?_
      rw [List.mem_singleton.mp in_memo]
      exact .string _
    exact ⟨congrArg Except.ok (whole.mpr distinct), only⟩

/-- The first of two flags is lost. -/
theorem decodeBytes_flagsTwice :
    bundled.decodeBytes flagsTwice = .ok (.object [("Flags", .ofNat 1)]) ∧
    bundled.Occurrences .object flagsTwice []
      (.object [("Flags", .ofNat 0), ("Flags", .ofNat 1)]) := by
  have occurs : bundled.Occurrences .object flagsTwice []
      (.object [("Flags", .ofNat 0), ("Flags", .ofNat 1)]) :=
    occurs_flags 0 (by decide) (occurs_flags 1 (by decide) .exhausted)
  refine ⟨?_, occurs⟩
  obtain ⟨-, -, -, -, -, -, accepted⟩ := checked_flags
  cases decoded : bundled.decodeBytes flagsTwice with
  | error e =>
    rw [decoded] at accepted
    cases accepted
  | ok json =>
    obtain ⟨members, found, rfl⟩ := occurrences_of_decodeBytes bundled_lawful decoded
    obtain ⟨same, -⟩ := found.unique bundled_lawful occurs
    rw [same]
    simp [Json.keyed, edited, setMember, Json.ofNat]

end Registry
end LedgerWire
