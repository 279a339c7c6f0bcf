import LedgerWire.Proofs.Consumption
import LedgerWire.Proofs.NamedCodes
import LedgerWire.Proofs.Runs
import LedgerWire.Registry.FieldName

namespace LedgerWire

namespace FieldHeader
variable {header other : FieldHeader}

theorem scan_start (type : header.typeCode ≠ 0) (code : header.fieldCode ≠ 0) (rest : Bytes) :
    scan (Cursor.start (header.encode ++ rest)) = .ok header ⟨header.encode.length, rest⟩ := by
  rw [Cursor.start, scan_encode header type code, Nat.zero_add]

theorem eq_of_encode_prefix (type : header.typeCode ≠ 0) (code : header.fieldCode ≠ 0)
    (other_type : other.typeCode ≠ 0) (other_code : other.fieldCode ≠ 0)
    (front : header.encode <+: other.encode) : header = other := by
  obtain ⟨rest, whole⟩ := front
  have read := scan_start type code rest
  have other_read := scan_start other_type other_code []
  rw [whole] at read
  rw [List.append_nil, read] at other_read
  cases other_read
  rfl

theorem scan_whole {bytes : Bytes} {after : Cursor}
    (scanned : scan (Cursor.start bytes) = .ok header after) (ends : after.rest = []) :
    bytes = header.encode ∧ after = ⟨bytes.length, []⟩ := by
  obtain ⟨position, rest⟩ := after
  obtain rfl : rest = [] := ends
  have passed := passes_scan scanned
  have whole : bytes = header.encode ++ [] := passed.rest
  have moved : position = 0 + header.encode.length := passed.position
  rw [List.append_nil] at whole
  rw [Nat.zero_add] at moved
  rw [moved, whole]
  exact ⟨rfl, rfl⟩

end FieldHeader

namespace Registry
variable {registry : Registry}

variable (registry) in
/-- The names of the fields on the wire and the bytes of their headers stand for one another, and a
header finds its own end. -/
structure NamesHeaders : Prop where
  coded : ∀ name, (∃ bytes, registry.encodeName name = .ok bytes) ↔
    ∃ field, registry.field? name = some field ∧ field.serialized = true
  named : ∀ name field, registry.field? name = some field → field.serialized = true →
    (registry.encodeName name >>= registry.decodeName) = .ok name
  spelled : ∀ bytes name, registry.decodeName bytes = .ok name →
    registry.encodeName name = .ok bytes
  apart : ∀ name other bytes other_bytes, registry.encodeName name = .ok bytes →
    registry.encodeName other = .ok other_bytes → bytes <+: other_bytes → name = other
  delimited : ∀ name bytes rest, registry.encodeName name = .ok bytes →
    ∃ header, header.encode = bytes ∧
      FieldHeader.scan (Cursor.start (bytes ++ rest)) = .ok header ⟨bytes.length, rest⟩

theorem encodeName_eq_ok {name : String} {bytes : Bytes} :
    registry.encodeName name = .ok bytes ↔ ∃ field header,
      registry.field? name = some field ∧ field.header? = some header ∧ header.encode = bytes := by
  have field_eq_ok {field : Field} :
      registry.field name = .ok field ↔ registry.field? name = some field := by
    unfold Registry.field
    cases registry.field? name <;> simp
  constructor
  · intro h
    obtain ⟨field, found, h⟩ := bind_eq_ok.mp h
    obtain ⟨header, coded, h⟩ := bind_eq_ok.mp h
    exact ⟨field, header, field_eq_ok.mp found, header_eq_ok.mp coded, Except.ok.inj h⟩
  · rintro ⟨field, header, found, coded, rfl⟩
    exact bind_eq_ok.mpr ⟨field, field_eq_ok.mpr found,
      bind_eq_ok.mpr ⟨header, header_eq_ok.mpr coded, rfl⟩⟩

theorem decodeName_eq_ok {bytes : Bytes} {name : String} :
    registry.decodeName bytes = .ok name ↔ ∃ header field,
      FieldHeader.scan (Cursor.start bytes) = .ok header ⟨bytes.length, []⟩ ∧
        registry.fieldOfHeader header = .ok field ∧ field.name = name := by
  constructor
  · intro h
    unfold decodeName at h
    split at h
    · cases h
    · rename_i header after scanned
      split at h
      · rename_i empty
        obtain ⟨field, found, h⟩ := bind_eq_ok.mp h
        obtain ⟨-, rfl⟩ := FieldHeader.scan_whole scanned (List.isEmpty_iff.mp empty)
        exact ⟨header, field, scanned, found, Except.ok.inj h⟩
      · cases h
  · rintro ⟨header, field, scanned, found, rfl⟩
    rw [decodeName, scanned]
    exact bind_eq_ok.mpr ⟨field, found, rfl⟩

section Coherent
variable (coherent : Coherent registry.fields)
include coherent

theorem decodeName_eq_ok_iff_encodeName {bytes : Bytes} {name : String} :
    registry.decodeName bytes = .ok name ↔ registry.encodeName name = .ok bytes := by
  rw [encodeName_eq_ok, decodeName_eq_ok]
  constructor
  · rintro ⟨header, field, scanned, found, rfl⟩
    obtain ⟨member, coded⟩ := coherent.fieldOfHeader_eq_ok_iff.mp found
    obtain ⟨whole, -⟩ := FieldHeader.scan_whole scanned rfl
    exact ⟨field, header, coherent.field?_eq_some_iff.mpr ⟨member, rfl⟩, coded, whole.symm⟩
  · rintro ⟨field, header, found, coded, rfl⟩
    obtain ⟨member, named⟩ := coherent.field?_eq_some_iff.mp found
    obtain ⟨-, type, code⟩ := codes_of_header? coded
    have scanned := FieldHeader.scan_start type code []
    rw [List.append_nil] at scanned
    exact ⟨header, field, scanned, coherent.fieldOfHeader_eq_ok_iff.mpr ⟨member, coded⟩, named⟩

theorem exists_encodeName_iff (name : String) :
    (∃ bytes, registry.encodeName name = .ok bytes) ↔
      ∃ field, registry.field? name = some field ∧ field.serialized = true := by
  simp only [encodeName_eq_ok]
  constructor
  · rintro ⟨bytes, field, header, found, coded, -⟩
    exact ⟨field, found, (codes_of_header? coded).1⟩
  · rintro ⟨field, found, on_wire⟩
    have known : registry.Known field := ⟨(coherent.field?_eq_some_iff.mp found).1, on_wire⟩
    obtain ⟨header, coded, -⟩ := known.header coherent
    exact ⟨header.encode, field, header, found, coded, rfl⟩

theorem eq_of_encodeName_prefix {name other : String} {bytes other_bytes : Bytes}
    (written : registry.encodeName name = .ok bytes)
    (other_written : registry.encodeName other = .ok other_bytes)
    (front : bytes <+: other_bytes) : name = other := by
  obtain ⟨field, header, found, coded, rfl⟩ := encodeName_eq_ok.mp written
  obtain ⟨other_field, other_header, other_found, other_coded, rfl⟩ :=
    encodeName_eq_ok.mp other_written
  obtain ⟨on_wire, type, code⟩ := codes_of_header? coded
  obtain ⟨other_on_wire, other_type, other_code⟩ := codes_of_header? other_coded
  obtain ⟨member, rfl⟩ := coherent.field?_eq_some_iff.mp found
  obtain ⟨other_member, rfl⟩ := coherent.field?_eq_some_iff.mp other_found
  have same := FieldHeader.eq_of_encode_prefix type code other_type other_code front
  rw [coherent.header_inj ⟨member, on_wire⟩ ⟨other_member, other_on_wire⟩
    (by rw [coded, other_coded, same])]

theorem namesHeaders : registry.NamesHeaders where
  coded := exists_encodeName_iff coherent
  named name field found on_wire := by
    obtain ⟨bytes, written⟩ := (exists_encodeName_iff coherent name).mpr ⟨field, found, on_wire⟩
    exact bind_eq_ok.mpr ⟨bytes, written, (decodeName_eq_ok_iff_encodeName coherent).mpr written⟩
  spelled _ _ read := (decodeName_eq_ok_iff_encodeName coherent).mp read
  apart _ _ _ _ := eq_of_encodeName_prefix coherent
  delimited _ bytes rest written := by
    obtain ⟨field, header, -, coded, rfl⟩ := encodeName_eq_ok.mp written
    obtain ⟨-, type, code⟩ := codes_of_header? coded
    exact ⟨header, rfl, FieldHeader.scan_start type code rest⟩

end Coherent

/-- In every registry that loads, from JSON or from text, the fields on the wire have names and
headers that correspond one to one, and no header begins like another one goes on. -/
theorem loaded_names_headers {json : Json} {registry : Registry}
    (loaded : ofJson json = .ok registry) :
    registry.NamesHeaders ∧
      ∀ text, Json.parseVerbatim? text = some json → ofText text = .ok registry := by
  obtain ⟨document, -, made⟩ := exists_document_of_ofJson loaded
  refine ⟨namesHeaders (coherent_of_ofDocument made), fun text parsed => ?_⟩
  rw [ofText, parsed]
  exact loaded

/-- Fields whose headers have the four shapes: both codes in one byte, one of them or both in a byte
of their own. -/
def fourShapes : Document where
  types := [("UInt32", 2), ("UInt8", 16)]
  fields := [("Flags", ⟨2, false, true, true, "UInt32"⟩),
    ("NetworkID", ⟨16, false, true, true, "UInt32"⟩), ("Scale", ⟨2, false, true, true, "UInt8"⟩),
    ("TickSize", ⟨16, false, true, true, "UInt8"⟩),
    ("Unwritten", ⟨2, false, false, true, "UInt32"⟩)]
  ledgerEntryTypes := []
  transactionResults := []
  transactionTypes := []

theorem loaded_names_headers_fourShapes :
    ∃ registry, ofJson fourShapes.toJson = .ok registry ∧ registry.NamesHeaders ∧
      registry.encodeName "Flags" = .ok [0x22] ∧ registry.encodeName "NetworkID" = .ok [0x20, 16] ∧
      registry.encodeName "Scale" = .ok [0x02, 16] ∧
      registry.decodeName [0, 16, 16] = .ok "TickSize" ∧
      registry.encodeName "Unwritten" = .error (.unknownField (.name "Unwritten")) ∧
      registry.decodeName [0, 2, 2] = .error (.unknownField (.escapedTypeCode 2)) := by
  obtain ⟨registry, loaded⟩ : ∃ registry, ofJson fourShapes.toJson = .ok registry := ⟨_, rfl⟩
  have names := (loaded_names_headers loaded).1
  cases loaded
  exact ⟨_, rfl, names, rfl, rfl, rfl, rfl, rfl, rfl⟩

end Registry
end LedgerWire
