import LedgerWire.Proofs.Composition
import LedgerWire.Proofs.Lawful

namespace LedgerWire.Registry
variable {registry : Registry} {field : Field}

variable (registry) in
/-- A field of the registry that stands on the wire. -/
structure Known (field : Field) : Prop where
  listed : field ∈ registry.fields
  serialized : field.serialized = true

theorem header?_eq_some_iff {header : FieldHeader} :
    field.header? = some header ↔
      field.serialized = true ∧ FieldHeader.ofCodes? field.typeCode field.nth = some header := by
  rw [Field.header?]
  cases field.serialized <;> simp

theorem known_of_fieldOfHeader {header : FieldHeader}
    (named : registry.fieldOfHeader header = .ok field) :
    registry.Known field ∧ field.header? = some header := by
  unfold fieldOfHeader at named
  split at named
  · rename_i found
    cases named
    have coded : field.header? = some header := by simpa using List.find?_some found
    exact ⟨⟨List.mem_of_find?_eq_some found, (header?_eq_some_iff.mp coded).1⟩, coded⟩
  · cases named

theorem Coherent.field?_eq_some_iff (coherent : Coherent registry.fields) {name : String} :
    registry.field? name = some field ↔ field ∈ registry.fields ∧ field.name = name :=
  find?_key_eq_some_iff coherent.names

theorem wireField?_eq_some {signingOnly : Bool} {name : String} {field : Field}
    (h : registry.wireField? signingOnly name = some field) :
    registry.field? name = some field ∧ field.serialized = true ∧ field.name = name := by
  obtain ⟨found, counts⟩ := Option.filter_eq_some_iff.mp h
  simp only [Bool.and_eq_true] at counts
  exact ⟨found, counts.1, by simpa using List.find?_some found⟩

theorem wireField?_false {signingOnly : Bool} {name : String} {field : Field}
    (h : registry.wireField? signingOnly name = some field) :
    registry.wireField? false name = some field := by
  obtain ⟨found, on_wire, -⟩ := wireField?_eq_some h
  exact Option.filter_eq_some_iff.mpr ⟨found, by simp [on_wire]⟩

theorem known_of_wireField? {signingOnly : Bool} {name : String}
    (h : registry.wireField? signingOnly name = some field) : registry.Known field :=
  ⟨List.mem_of_find?_eq_some (wireField?_eq_some h).1, (wireField?_eq_some h).2.1⟩

theorem mem_wireMembers {signingOnly : Bool} {members : List (String × Json)} {field : Field}
    {json : Json} :
    (field, json) ∈ registry.wireMembers signingOnly members ↔
      ∃ name, (name, json) ∈ members ∧ registry.wireField? signingOnly name = some field := by
  simp [wireMembers]

theorem known_of_mem_wireMembers {signingOnly : Bool} {members : List (String × Json)} {json : Json}
    (member : (field, json) ∈ registry.wireMembers signingOnly members) : registry.Known field := by
  obtain ⟨name, -, found⟩ := mem_wireMembers.mp member
  exact known_of_wireField? found

section Lawful
variable (lawful : registry.Lawful)
include lawful

theorem field?_of_mem (member : field ∈ registry.fields) :
    registry.field? field.name = some field :=
  lawful.coherent.field?_eq_some_iff.mpr ⟨member, rfl⟩

theorem Known.wireField? (known : registry.Known field) :
    registry.wireField? false field.name = some field :=
  Option.filter_eq_some_iff.mpr ⟨field?_of_mem lawful known.listed, by simp [known.serialized]⟩

theorem typed_of_carries (member : field ∈ registry.fields) {type : WireType}
    (carried : registry.carries field.name type = true) : field.wireType? = some type := by
  rw [carries, field?_of_mem lawful member] at carried
  simp only [Option.any_some, Bool.and_eq_true, beq_iff_eq] at carried
  exact carried.2

theorem Known.variableLength (known : registry.Known field) {type : WireType}
    (typed : field.wireType? = some type) : field.variableLength = type.prefixed := by
  obtain ⟨other, other_typed, prefixed⟩ := lawful.typed field known.listed known.serialized
  rw [typed] at other_typed
  cases other_typed
  exact prefixed

end Lawful

theorem isObject_of_typed {type : WireType} (typed : field.wireType? = some type) :
    field.isObject = (type == .object) := by
  rw [Field.isObject, typed]
  rfl

theorem header_eq_ok {header : FieldHeader} :
    field.header = .ok header ↔ field.header? = some header := by
  unfold Field.header
  cases field.header? <;> simp

theorem value_of_memberBytes {emptyAccount : Bool} {json : Json} {bytes : Bytes}
    (h : registry.memberBytes emptyAccount field json = .ok bytes) :
    ∃ value written, registry.valueOf field json = .ok value ∧
      Writer.fieldBytes field value.toBytes (emptyAccount && field.name == "Account") =
        .ok written ∧
      bytes = written ++ (if field.isObject then [objectEnd] else []) := by
  obtain ⟨value, built, h⟩ := bind_eq_ok.mp h
  obtain ⟨written, wrote, h⟩ := bind_eq_ok.mp h
  exact ⟨value, written, built, wrote, (Except.ok.inj h).symm⟩

theorem memberBytes_congr {emptyAccount : Bool} {json other : Json}
    (same : registry.valueOf field other = registry.valueOf field json) :
    registry.memberBytes emptyAccount field other =
      registry.memberBytes emptyAccount field json := by
  rw [memberBytes, memberBytes, same]

theorem written_eq_ok {value written : Bytes} {omitPayload : Bool} :
    Writer.fieldBytes field value omitPayload = .ok written ↔
      ∃ header payload, field.header? = some header ∧ written = header.encode ++ payload ∧
        (field.variableLength = false ∧ payload = value ∨ field.variableLength = true ∧
          ∃ front, LengthPrefix.encode (if omitPayload then [] else value).length = .ok front ∧
            payload = front ++ (if omitPayload then [] else value)) := by
  rw [Writer.fieldBytes, bind_eq_ok]
  cases field.variableLength with
  | false =>
    constructor
    · rintro ⟨header, coded, made⟩
      exact ⟨header, value, header_eq_ok.mp coded, (Except.ok.inj made).symm, .inl ⟨rfl, rfl⟩⟩
    · rintro ⟨header, _, coded, rfl, ⟨-, rfl⟩ | ⟨none, -⟩⟩
      · exact ⟨header, header_eq_ok.mpr coded, rfl⟩
      · cases none
  | true =>
    constructor
    · rintro ⟨header, coded, made⟩
      obtain ⟨front, length, made⟩ := bind_eq_ok.mp made
      exact ⟨header, _, header_eq_ok.mp coded, (Except.ok.inj made).symm,
        .inr ⟨rfl, front, length, rfl⟩⟩
    · rintro ⟨header, _, coded, rfl, ⟨none, -⟩ | ⟨-, front, length, rfl⟩⟩
      · cases none
      · exact ⟨header, header_eq_ok.mpr coded, bind_eq_ok.mpr ⟨front, length, rfl⟩⟩

theorem fieldBytes_of_unprefixed {value written : Bytes} {omitPayload : Bool}
    (h : Writer.fieldBytes field value omitPayload = .ok written)
    (plain : field.variableLength = false) :
    ∃ header, field.header? = some header ∧ written = header.encode ++ value := by
  obtain ⟨header, payload, coded, rfl, ⟨-, rfl⟩ | ⟨prefixed, -⟩⟩ := written_eq_ok.mp h
  · exact ⟨header, coded, rfl⟩
  · rw [plain] at prefixed
    cases prefixed

end LedgerWire.Registry
