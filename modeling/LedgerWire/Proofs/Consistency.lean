import Mathlib.Data.List.Perm.Subperm
import LedgerWire.Proofs.Canonical

namespace LedgerWire

theorem FieldHeader.ordinal_lt_iff {a b : FieldHeader} : a.ordinal < b.ordinal ↔ a.Before b := by
  refine ⟨before_of_ordinal, fun before => ?_⟩
  have a_code := a.fieldCode.toNat_lt
  have b_code := b.fieldCode.toNat_lt
  rw [Before, UInt8.lt_iff_toNat_lt, UInt8.lt_iff_toNat_lt, ← UInt8.toNat_inj] at before
  simp only [ordinal]
  omega

namespace Registry

/-- What a registry knows about fields is what its document says about them. -/
structure Reflects (registry : Registry) (document : Document) : Prop where
  declared : ∀ name, (registry.field? name).isSome = true ↔ name ∈ document.fields.map Prod.fst
  described : ∀ name field, registry.field? name = some field ↔
    ∃ info typeCode, (name, info) ∈ document.fields ∧
      document.types.lookup info.type = some typeCode ∧ field = describedField typeCode name info
  headed : ∀ header field, registry.fieldOfHeader header = .ok field ↔
    registry.field? field.name = some field ∧ field.serialized = true ∧
      field.typeCode.toInt = header.typeCode.toNat ∧ field.nth.toInt = header.fieldCode.toNat
  coded : ∀ name field, registry.field? name = some field → field.serialized = true →
    FieldHeader.Codeable field.typeCode field.nth
  ordered : ∀ name field other_name other, registry.field? name = some field →
    field.serialized = true → registry.field? other_name = some other → other.serialized = true →
    field ≠ other → field.ordinal ≠ other.ordinal ∧
      ∃ header other_header, field.header? = some header ∧ other.header? = some other_header ∧
        (field.ordinal < other.ordinal ↔ header.Before other_header)

/-- Entries of a field table that cannot stand in it, alone or together. The order in which they
stand makes no difference. -/
inductive Contradictory (types : Codes) (entries : List (String × FieldInfo)) : Prop
  | undeclaredType {name : String} {info : FieldInfo} :
      (name, info) ∈ entries → types.lookup info.type = none → Contradictory types entries
  | sharedName {name : String} {first second : FieldInfo} :
      List.Subperm [(name, first), (name, second)] entries → Contradictory types entries
  | sharedHeader {first second : String × FieldInfo} {typeCode : Int32} :
      List.Subperm [first, second] entries → first.2.serialized = true →
      second.2.serialized = true → types.lookup first.2.type = some typeCode →
      types.lookup second.2.type = some typeCode → first.2.nth = second.2.nth →
      Contradictory types entries
  | codeOutOfRange {name : String} {info : FieldInfo} {typeCode : Int32} :
      (name, info) ∈ entries → info.serialized = true → types.lookup info.type = some typeCode →
      ¬ FieldHeader.Codeable typeCode info.nth → Contradictory types entries

theorem Contradictory.perm {types : Codes} {entries others : List (String × FieldInfo)}
    (contradictory : Contradictory types entries) (rearranged : entries.Perm others) :
    Contradictory types others := by
  cases contradictory with
  | undeclaredType entry undeclared => exact .undeclaredType (rearranged.subset entry) undeclared
  | sharedName two => exact .sharedName (two.trans rearranged.subperm)
  | sharedHeader two first second type type' code =>
    exact .sharedHeader (two.trans rearranged.subperm) first second type type' code
  | codeOutOfRange entry on_wire type uncoded =>
    exact .codeOutOfRange (rearranged.subset entry) on_wire type uncoded

section Table
variable {types : Codes} {entries : List (String × FieldInfo)} {fields : List Field}

theorem entryField?_eq_some {entry : String × FieldInfo} {field : Field} :
    entryField? types entry = some field ↔ ∃ typeCode,
      types.lookup entry.2.type = some typeCode ∧
        field = describedField typeCode entry.1 entry.2 := by
  rw [entryField?, Option.map_eq_some_iff]
  simp only [eq_comm]

theorem name_of_entryField? {entry : String × FieldInfo} {field : Field}
    (made : entryField? types entry = some field) : field.name = entry.1 := by
  obtain ⟨typeCode, -, rfl⟩ := entryField?_eq_some.mp made
  rfl

theorem map_entryField? (described : entries.mapM (entryField? types) = some fields) :
    entries.map (entryField? types) = fields.map some := by
  induction entries generalizing fields with
  | nil =>
    cases described
    rfl
  | cons entry entries ih =>
    simp only [List.mapM_cons, Option.bind_eq_bind, Option.bind_eq_some_iff] at described
    obtain ⟨field, first, rest, others, made⟩ := described
    cases made
    rw [List.map_cons, List.map_cons, first, ih others]

theorem mem_fields_iff (described : entries.mapM (entryField? types) = some fields)
    {field : Field} :
    field ∈ fields ↔ ∃ entry ∈ entries, entryField? types entry = some field := by
  rw [← List.mem_map (f := entryField? types), map_entryField? described,
    List.mem_map_of_injective (Option.some_injective Field)]

theorem exists_field_of_entry (described : entries.mapM (entryField? types) = some fields)
    {entry : String × FieldInfo} (member : entry ∈ entries) :
    ∃ field ∈ fields, entryField? types entry = some field := by
  have inside := List.mem_map_of_mem (f := entryField? types) member
  rw [map_entryField? described, List.mem_map] at inside
  obtain ⟨field, in_fields, made⟩ := inside
  exact ⟨field, in_fields, made.symm⟩

theorem subperm_of_entries (described : entries.mapM (entryField? types) = some fields)
    {first second : String × FieldInfo} (two : List.Subperm [first, second] entries) :
    ∃ a b, entryField? types first = some a ∧ entryField? types second = some b ∧
      List.Subperm [a, b] fields := by
  obtain ⟨picked, rearranged, inside⟩ := two
  have mapped := inside.map (entryField? types)
  rw [map_entryField? described] at mapped
  obtain ⟨made, in_fields, same⟩ := List.sublist_map_iff.mp mapped
  have pair : (made.map some).Perm [entryField? types first, entryField? types second] :=
    same ▸ rearranged.map (entryField? types)
  obtain ⟨a, -, first_made⟩ := List.mem_map.mp (pair.symm.subset List.mem_cons_self)
  obtain ⟨b, -, second_made⟩ :=
    List.mem_map.mp (pair.symm.subset (List.mem_cons_of_mem _ List.mem_cons_self))
  rw [← first_made, ← second_made] at pair
  refine ⟨a, b, first_made.symm, second_made.symm, made, ?_, in_fields⟩
  exact (List.map_perm_map_iff (Option.some_injective Field)).mp pair

theorem Coherent.apart (coherent : Coherent fields) {a b : Field}
    (two : List.Subperm [a, b] fields) :
    a.name ≠ b.name ∧ (a.serialized = true → b.serialized = true → a.header? ≠ b.header?) := by
  obtain ⟨picked, rearranged, inside⟩ := two
  have names : picked.Pairwise fun a b => a.name ≠ b.name :=
    (List.pairwise_map.mp coherent.names).sublist inside
  have headers : picked.Pairwise fun a b =>
      a.serialized = true → b.serialized = true → a.header? ≠ b.header? :=
    (coherent.headers.sublist inside).imp fun {a b} h (_ : a.serialized = true) => h
  have apart := names.perm rearranged fun different => different.symm
  have headers_apart := headers.perm rearranged fun h b_wire a_wire same =>
    h a_wire b_wire same.symm
  rw [List.pairwise_pair] at apart headers_apart
  exact ⟨apart, headers_apart⟩

theorem not_contradictory (described : entries.mapM (entryField? types) = some fields)
    (coherent : Coherent fields) : ¬ Contradictory types entries := by
  intro contradictory
  cases contradictory with
  | undeclaredType entry undeclared =>
    obtain ⟨field, -, made⟩ := exists_field_of_entry described entry
    obtain ⟨typeCode, declared, -⟩ := entryField?_eq_some.mp made
    rw [undeclared] at declared
    cases declared
  | sharedName two =>
    obtain ⟨a, b, a_made, b_made, in_fields⟩ := subperm_of_entries described two
    have apart := (coherent.apart in_fields).1
    rw [name_of_entryField? a_made, name_of_entryField? b_made] at apart
    exact apart rfl
  | sharedHeader two on_wire on_wire' type type' code =>
    obtain ⟨a, b, a_made, b_made, in_fields⟩ := subperm_of_entries described two
    have apart := (coherent.apart in_fields).2
    rw [entryField?, type, Option.map_some, Option.some.injEq] at a_made
    rw [entryField?, type', Option.map_some, Option.some.injEq] at b_made
    subst a_made b_made
    apply apart on_wire on_wire'
    simp only [describedField, Field.header?, on_wire, on_wire', code]
  | codeOutOfRange entry on_wire type uncoded =>
    obtain ⟨field, in_fields, made⟩ := exists_field_of_entry described entry
    rw [entryField?, type, Option.map_some, Option.some.injEq] at made
    subst made
    obtain ⟨header, coded⟩ := Option.isSome_iff_exists.mp (coherent.coded _ in_fields on_wire)
    exact uncoded (FieldHeader.ofCodes?_eq_some_iff.mp (header?_eq_some_iff.mp coded).2).1

end Table

section Loaded
variable {registry : Registry} {document : Document}

theorem field?_eq_some_iff_entry (coherent : Coherent registry.fields)
    (described : document.fields.mapM (entryField? document.types) = some registry.fields)
    {name : String} {field : Field} :
    registry.field? name = some field ↔ ∃ info typeCode, (name, info) ∈ document.fields ∧
      document.types.lookup info.type = some typeCode ∧
        field = describedField typeCode name info := by
  rw [coherent.field?_eq_some_iff, mem_fields_iff described]
  constructor
  · rintro ⟨⟨⟨name, info⟩, entry, made⟩, rfl⟩
    obtain ⟨typeCode, type, rfl⟩ := entryField?_eq_some.mp made
    exact ⟨info, typeCode, entry, type, rfl⟩
  · rintro ⟨info, typeCode, entry, type, rfl⟩
    exact ⟨⟨(name, info), entry, entryField?_eq_some.mpr ⟨typeCode, type, rfl⟩⟩, rfl⟩

theorem isSome_field?_iff (coherent : Coherent registry.fields)
    (described : document.fields.mapM (entryField? document.types) = some registry.fields)
    (name : String) :
    (registry.field? name).isSome = true ↔ name ∈ document.fields.map Prod.fst := by
  rw [Option.isSome_iff_exists, List.mem_map]
  constructor
  · rintro ⟨field, found⟩
    obtain ⟨info, -, entry, -⟩ := (field?_eq_some_iff_entry coherent described).mp found
    exact ⟨(name, info), entry, rfl⟩
  · rintro ⟨entry, member, rfl⟩
    obtain ⟨field, in_fields, made⟩ := exists_field_of_entry described member
    exact ⟨field, coherent.field?_eq_some_iff.mpr ⟨in_fields, name_of_entryField? made⟩⟩

theorem Known.codes (coherent : Coherent registry.fields) {field : Field}
    (known : registry.Known field) :
    FieldHeader.Codeable field.typeCode field.nth ∧ ∀ header, field.header? = some header ↔
      field.typeCode.toInt = header.typeCode.toNat ∧ field.nth.toInt = header.fieldCode.toNat := by
  have coded_iff (header : FieldHeader) : field.header? = some header ↔
      FieldHeader.ofCodes? field.typeCode field.nth = some header := by
    rw [header?_eq_some_iff, and_iff_right known.serialized]
  obtain ⟨header, coded, -⟩ := known.header coherent
  obtain ⟨codeable, -⟩ := FieldHeader.ofCodes?_eq_some_iff.mp ((coded_iff header).mp coded)
  refine ⟨codeable, fun header => ?_⟩
  rw [coded_iff, FieldHeader.ofCodes?_eq_some_iff, and_iff_right codeable]

theorem fieldOfHeader_eq_ok_iff_codes (coherent : Coherent registry.fields) {field : Field}
    {header : FieldHeader} :
    registry.fieldOfHeader header = .ok field ↔
      registry.field? field.name = some field ∧ field.serialized = true ∧
        field.typeCode.toInt = header.typeCode.toNat ∧
        field.nth.toInt = header.fieldCode.toNat := by
  rw [coherent.fieldOfHeader_eq_ok_iff, coherent.field?_eq_some_iff]
  constructor
  · rintro ⟨member, coded⟩
    have known : registry.Known field := ⟨member, (header?_eq_some_iff.mp coded).1⟩
    exact ⟨⟨member, rfl⟩, known.serialized, ((known.codes coherent).2 header).mp coded⟩
  · rintro ⟨⟨member, -⟩, on_wire, codes⟩
    have known : registry.Known field := ⟨member, on_wire⟩
    exact ⟨member, ((known.codes coherent).2 header).mpr codes⟩

theorem ordinals_apart (coherent : Coherent registry.fields) {field other : Field}
    (known : registry.Known field) (other_known : registry.Known other) (apart : field ≠ other) :
    field.ordinal ≠ other.ordinal ∧
      ∃ header other_header, field.header? = some header ∧ other.header? = some other_header ∧
        (field.ordinal < other.ordinal ↔ header.Before other_header) := by
  obtain ⟨header, coded, ordinal⟩ := known.header coherent
  obtain ⟨other_header, other_coded, other_ordinal⟩ := other_known.header coherent
  refine ⟨fun same => apart (coherent.ordinal_inj known other_known same), header, other_header,
    coded, other_coded, ?_⟩
  rw [ordinal, other_ordinal, Int.ofNat_lt, FieldHeader.ordinal_lt_iff]

theorem reflects (coherent : Coherent registry.fields)
    (described : document.fields.mapM (entryField? document.types) = some registry.fields) :
    registry.Reflects document := by
  have known {name : String} {field : Field} (found : registry.field? name = some field)
      (on_wire : field.serialized = true) : registry.Known field :=
    ⟨(coherent.field?_eq_some_iff.mp found).1, on_wire⟩
  exact {
    declared := isSome_field?_iff coherent described
    described := fun _ _ => field?_eq_some_iff_entry coherent described
    headed := fun _ _ => fieldOfHeader_eq_ok_iff_codes coherent
    coded := fun _ _ found on_wire => ((known found on_wire).codes coherent).1
    ordered := fun _ _ _ _ found on_wire other_found other_on_wire apart =>
      ordinals_apart coherent (known found on_wire) (known other_found other_on_wire) apart }

theorem ofJson_of_typed {json : Json} (typed : Document.ofJson? json = some document) :
    ofJson json = (ofDocument document).mapError .definitions := by
  rw [ofJson, typed]

theorem ofDocument_error_of_contradictory
    (contradictory : Contradictory document.types document.fields) :
    ∃ fault, ofDocument document = .error fault := by
  cases loaded : ofDocument document with
  | error fault => exact ⟨fault, rfl⟩
  | ok registry =>
    obtain ⟨fields, described, coherent, -⟩ := ofDocument_eq_ok.mp loaded
    exact absurd contradictory (not_contradictory described coherent)

end Loaded

/-- A registry that is loaded knows the fields of its document, each under its name and, on the
wire, under its header, with different places in the order of the headers. A document whose fields
contradict one another in any order is refused. -/
theorem loaded_consistent :
    (∀ json registry, ofJson json = .ok registry →
      ∃ document, Document.ofJson? json = some document ∧ registry.Reflects document) ∧
    (∀ json document entries, Document.ofJson? json = some document →
      entries.Perm document.fields → Contradictory document.types entries →
      ∃ fault, ofJson json = .error (.definitions fault)) ∧
    (∀ text json, Json.parseVerbatim? text = some json → ofText text = ofJson json) := by
  refine ⟨fun json registry loaded => ?_,
    fun json document entries typed rearranged contradictory => ?_, fun text json parsed => ?_⟩
  · cases typed : Document.ofJson? json with
    | none =>
      rw [ofJson, typed] at loaded
      cases loaded
    | some document =>
      rw [ofJson_of_typed typed] at loaded
      cases made : ofDocument document with
      | error fault =>
        rw [made] at loaded
        cases loaded
      | ok other =>
        rw [made] at loaded
        cases loaded
        obtain ⟨fields, described, coherent, -, -, -, -, rfl⟩ := ofDocument_eq_ok.mp made
        exact ⟨document, rfl, reflects coherent described⟩
  · obtain ⟨fault, refused⟩ := ofDocument_error_of_contradictory (contradictory.perm rearranged)
    rw [ofJson_of_typed typed, refused]
    exact ⟨fault, rfl⟩
  · rw [ofText, parsed]

def twoFields : Document where
  types := [("UInt32", 2), ("Unknown", -2)]
  fields := [("Flags", ⟨2, false, true, true, "UInt32"⟩),
    ("Invalid", ⟨-1, false, false, false, "Unknown"⟩)]
  ledgerEntryTypes := []
  transactionResults := []
  transactionTypes := []

def fieldsTwice : Document :=
  { twoFields with fields := twoFields.fields ++ twoFields.fields.reverse }

theorem loaded_consistent_twoFields :
    (∃ registry, ofJson twoFields.toJson = .ok registry ∧ registry.Reflects twoFields) ∧
    ∃ fault, ofJson fieldsTwice.toJson = .error (.definitions fault) := by
  have typed : Document.ofJson? twoFields.toJson = some twoFields := by decide
  have typed_twice : Document.ofJson? fieldsTwice.toJson = some fieldsTwice := by decide
  have twice : List.Sublist [("Flags", ⟨2, false, true, true, "UInt32"⟩),
      ("Flags", ⟨2, false, true, true, "UInt32"⟩)] fieldsTwice.fields := by decide
  obtain ⟨registry, loaded⟩ : ∃ registry, ofJson twoFields.toJson = .ok registry := ⟨_, rfl⟩
  obtain ⟨document, read, reflects⟩ := loaded_consistent.1 _ _ loaded
  rw [typed] at read
  cases read
  exact ⟨⟨registry, loaded, reflects⟩, loaded_consistent.2.1 _ _ _ typed_twice (List.Perm.refl _)
    (.sharedName twice.subperm)⟩

end Registry
end LedgerWire
