import LedgerWire.Proofs.FieldRendering
import LedgerWire.Proofs.WireOrder

namespace LedgerWire

def Refuses {α : Type} (reader : Reader α) (bytes : Bytes) (e : Error) : Prop :=
  ∀ position rest, ∃ after, reader ⟨position, bytes ++ rest⟩ = .error e after

def TooDeep (e : Error) : Prop :=
  ∃ type : WireType, e = .nestingTooDeep type.name maxNesting

namespace Refuses
variable {α β : Type} {reader : Reader α} {next : α → Reader β} {front back : Bytes} {e : Error}

theorem append (h : Refuses reader front e) (back : Bytes) : Refuses reader (front ++ back) e := by
  intro position rest
  rw [List.append_assoc]
  exact h position (back ++ rest)

theorem bind (h : Refuses reader front e) : Refuses (reader >>= next) front e := by
  intro position rest
  obtain ⟨after, failed⟩ := h position rest
  exact ⟨after, Reader.bind_error next failed⟩

theorem skip {a : α} (h : ∀ cursor, reader cursor = .ok a cursor)
    (then_refuses : Refuses (next a) front e) : Refuses (reader >>= next) front e := by
  intro position rest
  rw [Reader.bind_ok (h _)]
  exact then_refuses position rest

end Refuses

theorem Reads.consumed {α : Type} {reader : Reader α} {bytes : Bytes} {a : α}
    (h : Reads reader bytes a) : Reads (Reader.consumed reader) bytes (a, bytes) := by
  intro position rest
  rw [Reader.consumed, Reader.bind_ok (Reader.get_apply _), Reader.bind_ok (h position rest),
    Reader.bind_ok (Reader.get_apply _)]
  simp

theorem Refuses.consumed {α : Type} {reader : Reader α} {bytes : Bytes} {e : Error}
    (h : Refuses reader bytes e) : Refuses (Reader.consumed reader) bytes e := by
  intro position rest
  obtain ⟨after, failed⟩ := h position rest
  refine ⟨after, ?_⟩
  rw [Reader.consumed, Reader.bind_ok (Reader.get_apply _)]
  exact Reader.bind_error _ failed

theorem FieldHeader.reads_encode {header : FieldHeader} (type : header.typeCode ≠ 0)
    (code : header.fieldCode ≠ 0) : Reads read header.encode header := by
  intro position rest
  rw [read, scan_encode header type code position rest]

theorem FieldHeader.encode_ne_nil (header : FieldHeader) : header.encode ≠ [] := by
  simp only [encode]
  split <;> split <;> exact List.cons_ne_nil _ _

namespace Registry
variable {registry : Registry}

theorem codes_of_header? {field : Field} {header : FieldHeader} (h : field.header? = some header) :
    field.serialized = true ∧ header.typeCode ≠ 0 ∧ header.fieldCode ≠ 0 := by
  obtain ⟨on_wire, codes⟩ := header?_eq_some_iff.mp h
  obtain ⟨⟨type_range, code_range⟩, type, code⟩ := FieldHeader.ofCodes?_eq_some_iff.mp codes
  refine ⟨on_wire, ?_, ?_⟩
  · intro zero
    rw [type, zero] at type_range
    exact absurd type_range.1 (by decide)
  · intro zero
    rw [code, zero] at code_range
    exact absurd code_range.1 (by decide)

theorem reads_header (lawful : registry.Lawful) {field : Field} (member : field ∈ registry.fields)
    {header : FieldHeader} (coded : field.header? = some header) :
    Reads (Reader.field registry) header.encode field := by
  obtain ⟨serialized, type, code⟩ := codes_of_header? coded
  refine (FieldHeader.reads_encode type code).map ?_
  rw [lawful.coherent.fieldOfHeader_eq_ok_iff.mpr ⟨member, coded⟩]
  rfl

theorem exists_known_of_field? {name : String} {header : FieldHeader}
    (marked : (registry.field? name).bind Field.header? = some header) :
    ∃ field, registry.Known field ∧ field.name = name ∧ field.header? = some header := by
  obtain ⟨field, found, coded⟩ := Option.bind_eq_some_iff.mp marked
  have named : field.name = name := by simpa using List.find?_some found
  exact ⟨field, ⟨List.mem_of_find?_eq_some found, (codes_of_header? coded).1⟩, named, coded⟩

theorem reads_objectEnd (lawful : registry.Lawful) :
    ∃ field, field.name = objectEndName ∧ Reads (Reader.field registry) [objectEnd] field := by
  obtain ⟨field, known, named, coded⟩ := exists_known_of_field? lawful.objectMarker
  exact ⟨field, named, reads_header lawful known.listed coded⟩

theorem reads_arrayEnd (lawful : registry.Lawful) :
    ∃ field, field.name = arrayEndName ∧ Reads (Reader.field registry) [arrayEnd] field := by
  obtain ⟨field, known, named, coded⟩ := exists_known_of_field? lawful.arrayMarker
  exact ⟨field, named, reads_header lawful known.listed coded⟩

/-- A field with the bytes of its header and those behind it, what its value is rendered as, and how
deep containers nest in it. -/
structure Part where
  field : Field
  header : Bytes
  payload : Bytes
  json : Json
  depth : Nat

def Part.bytes (part : Part) : Bytes := part.header ++ part.payload

structure Part.Named (registry : Registry) (part : Part) : Prop where
  reads : Reads (Reader.field registry) part.header part.field
  nonempty : part.header ≠ []
  opens : part.field.name ≠ objectEndName

theorem map_ok {α β : Type} (f : α → β) {reader : Reader α} {before after : Cursor} {a : α}
    (h : reader before = .ok a after) : (f <$> reader) before = .ok (f a) after := by
  rw [← bind_pure_comp, Reader.bind_ok h]
  rfl

theorem map_error {α β : Type} (f : α → β) {reader : Reader α} {before after : Cursor} {e : Error}
    (h : reader before = .error e after) : (f <$> reader) before = .error e after := by
  rw [← bind_pure_comp]
  exact Reader.bind_error _ h

theorem map_congr {α β : Type} (f : α → β) {reader other : Reader α} {here there : Cursor}
    (same : reader here = other there) : (f <$> reader) here = (f <$> other) there := by
  change EStateM.map f reader here = EStateM.map f other there
  rw [EStateM.map, EStateM.map, same]

theorem run_parts {α β : Type} (run : Nat → Reader (List β)) (bytes : α → Bytes) {as : List α}
    {bs : List β}
    (each : List.Forall₂ (fun a b => ∀ rounds position rest,
      run (rounds + 1) ⟨position, bytes a ++ rest⟩ =
        ((b :: ·) <$> run rounds) ⟨position + (bytes a).length, rest⟩) as bs)
    (rounds position : Nat) (rest : Bytes) :
    run (as.length + rounds) ⟨position, as.flatMap bytes ++ rest⟩ =
      ((bs ++ ·) <$> run rounds) ⟨position + (as.flatMap bytes).length, rest⟩ := by
  induction each generalizing position with
  | nil =>
    have same : ((([] : List β) ++ ·) : List β → List β) = id := rfl
    rw [same, id_map, List.length_nil, Nat.zero_add]
    rfl
  | cons step _ ih =>
    rw [List.flatMap_cons, List.append_assoc, List.length_cons, Nat.add_right_comm, step,
      List.length_append, ← Nat.add_assoc, map_congr _ (ih _), ← comp_map]
    rfl

theorem filled_of_named {before start : Cursor} {field : Field}
    (named : Reader.field registry before = .ok field start) : before.rest ≠ [] := by
  obtain ⟨position, rest⟩ := before
  rintro rfl
  cases named

section Entries
variable (readValue : Field → Reader Value)

theorem entriesWith_empty (rounds position : Nat) :
    Reader.entriesWith registry readValue rounds ⟨position, []⟩ = .ok [] ⟨position, []⟩ := by
  cases rounds <;> rfl

theorem entriesWith_named {before start : Cursor} {field : Field}
    (named : Reader.field registry before = .ok field start) (rounds : Nat) :
    Reader.entriesWith registry readValue (rounds + 1) before =
      (if field.name = objectEndName then return [] else do
        let value ← readValue field
        return ⟨field, value⟩ :: (← Reader.entriesWith registry readValue rounds) :
          Reader _) start := by
  have filled : before.rest.isEmpty = false := by simpa using filled_of_named named
  rw [Reader.entriesWith, Reader.bind_ok (Reader.get_apply _)]
  simp only [filled]
  exact Reader.bind_ok named

variable (registry) in
/-- What a round of the loop over the fields of an object does, with `rounds` more behind it. -/
inductive EntriesRound (rounds : Nat) : Cursor → List Entry → Cursor → Prop
  | exhausted {position : Nat} : EntriesRound rounds ⟨position, []⟩ [] ⟨position, []⟩
  | objectEnd {before after : Cursor} {field : Field} :
      Reader.field registry before = .ok field after → field.name = objectEndName →
      EntriesRound rounds before [] after
  | entry {before start middle after : Cursor} {field : Field} {value : Value}
      {others : List Entry} :
      Reader.field registry before = .ok field start → field.name ≠ objectEndName →
      readValue field start = .ok value middle →
      Reader.entriesWith registry readValue rounds middle = .ok others after →
      EntriesRound rounds before (⟨field, value⟩ :: others) after

theorem entriesWith_eq_ok {rounds : Nat} {before after : Cursor} {entries : List Entry} :
    Reader.entriesWith registry readValue (rounds + 1) before = .ok entries after ↔
      EntriesRound registry readValue rounds before entries after := by
  constructor
  · intro h
    by_cases empty : before.rest = []
    · obtain ⟨position, rest⟩ := before
      subst empty
      cases h
      exact .exhausted
    · have filled : before.rest.isEmpty = false := by simpa using empty
      rw [Reader.entriesWith, Reader.bind_ok (Reader.get_apply _)] at h
      simp only [filled] at h
      obtain ⟨field, start, named, h⟩ := Reader.bind_eq_ok.mp h
      split at h
      · rename_i ends
        cases h
        exact .objectEnd named ends
      · rename_i opens
        obtain ⟨value, middle, read, h⟩ := Reader.bind_eq_ok.mp h
        obtain ⟨others, others_read, rfl⟩ := Reader.bind_pure_eq_ok.mp h
        exact .entry named opens read others_read
  · intro h
    cases h with
    | exhausted => rfl
    | objectEnd named ends =>
      rw [entriesWith_named readValue named, if_pos ends]
      rfl
    | entry named opens read others_read =>
      rw [entriesWith_named readValue named, if_neg opens]
      exact Reader.bind_eq_ok.mpr ⟨_, _, read, Reader.bind_eq_ok.mpr ⟨_, _, others_read, rfl⟩⟩

theorem entriesWith_end (lawful : registry.Lawful) (rounds : Nat) :
    Reads (Reader.entriesWith registry readValue (rounds + 1)) [objectEnd] [] := by
  obtain ⟨field, name, reads⟩ := reads_objectEnd lawful
  intro position rest
  rw [entriesWith_named readValue (reads position rest), if_pos name]
  rfl

variable {readValue}

theorem entriesWith_part {part : Part} (named : part.Named registry) {value : Value}
    (reads : Reads (readValue part.field) part.payload value) (rounds position : Nat)
    (rest : Bytes) :
    Reader.entriesWith registry readValue (rounds + 1) ⟨position, part.bytes ++ rest⟩ =
      ((⟨part.field, value⟩ :: ·) <$> Reader.entriesWith registry readValue rounds)
        ⟨position + part.bytes.length, rest⟩ := by
  have shape : part.bytes ++ rest = part.header ++ (part.payload ++ rest) := List.append_assoc ..
  rw [shape, entriesWith_named readValue (named.reads position _), if_neg named.opens,
    Reader.bind_ok (reads _ rest), Part.bytes, List.length_append, Nat.add_assoc, bind_pure_comp]

theorem entriesWith_refuses {part : Part} (named : part.Named registry) {e : Error}
    (refuses : Refuses (readValue part.field) part.payload e) (rounds : Nat) :
    Refuses (Reader.entriesWith registry readValue (rounds + 1)) part.bytes e := by
  intro position rest
  have shape : part.bytes ++ rest = part.header ++ (part.payload ++ rest) := List.append_assoc ..
  obtain ⟨after, failed⟩ := refuses (position + part.header.length) rest
  refine ⟨after, ?_⟩
  rw [shape, entriesWith_named readValue (named.reads position _), if_neg named.opens]
  exact Reader.bind_error _ failed

end Entries

structure Part.Names (registry : Registry) (part : Part) : Prop where
  reads : Reads (Reader.field registry) part.header part.field
  nonempty : part.header ≠ []
  opens : part.field.name ≠ arrayEndName
  object : part.field.isObject = true

def Part.element (part : Part) : Element := ⟨part.field, part.payload⟩

section Elements
variable (inner : Reader (List Entry))

theorem elementsWith_named {before start : Cursor} {field : Field}
    (named : Reader.field registry before = .ok field start) (rounds : Nat) :
    Reader.elementsWith registry inner (rounds + 1) before =
      (if field.name = arrayEndName then return [] else do
        if !field.isObject then
          throw (.malformed WireType.array.name (.elementNotObjectField field.name))
        let (_, body) ← Reader.consumed inner
        return ⟨field, body⟩ :: (← Reader.elementsWith registry inner rounds) : Reader _) start :=
  Reader.bind_ok named

variable (registry) in
inductive ElementsRound (rounds : Nat) : Cursor → List Element → Cursor → Prop
  | arrayEnd {before after : Cursor} {field : Field} :
      Reader.field registry before = .ok field after → field.name = arrayEndName →
      ElementsRound rounds before [] after
  | element {before start middle after : Cursor} {field : Field} {entries : List Entry}
      {body : Bytes} {others : List Element} :
      Reader.field registry before = .ok field start → field.name ≠ arrayEndName →
      field.isObject = true → Reader.consumed inner start = .ok (entries, body) middle →
      Reader.elementsWith registry inner rounds middle = .ok others after →
      ElementsRound rounds before (⟨field, body⟩ :: others) after

theorem elementsWith_eq_ok {rounds : Nat} {before after : Cursor} {elements : List Element} :
    Reader.elementsWith registry inner (rounds + 1) before = .ok elements after ↔
      ElementsRound registry inner rounds before elements after := by
  constructor
  · intro h
    obtain ⟨field, start, named, h⟩ := Reader.bind_eq_ok.mp h
    split at h
    · rename_i ends
      cases h
      exact .arrayEnd named ends
    rename_i opens
    split at h
    · cases h
    · rename_i object
      obtain ⟨⟨entries, body⟩, middle, read, h⟩ := Reader.bind_eq_ok.mp h
      obtain ⟨others, others_read, rfl⟩ := Reader.bind_pure_eq_ok.mp h
      exact .element named opens (by simpa using object) read others_read
  · intro h
    cases h with
    | arrayEnd named ends =>
      rw [elementsWith_named inner named, if_pos ends]
      rfl
    | element named opens object read others_read =>
      rw [elementsWith_named inner named, if_neg opens, object]
      exact Reader.bind_eq_ok.mpr ⟨_, _, read, Reader.bind_eq_ok.mpr ⟨_, _, others_read, rfl⟩⟩

theorem elementsWith_end (lawful : registry.Lawful) (rounds : Nat) :
    Reads (Reader.elementsWith registry inner (rounds + 1)) [arrayEnd] [] := by
  obtain ⟨field, name, reads⟩ := reads_arrayEnd lawful
  intro position rest
  rw [elementsWith_named inner (reads position rest), if_pos name]
  rfl

variable {inner}

theorem elementsWith_part {part : Part} (named : part.Names registry) {entries : List Entry}
    (reads : Reads inner part.payload entries) (rounds position : Nat) (rest : Bytes) :
    Reader.elementsWith registry inner (rounds + 1) ⟨position, part.bytes ++ rest⟩ =
      ((part.element :: ·) <$> Reader.elementsWith registry inner rounds)
        ⟨position + part.bytes.length, rest⟩ := by
  have shape : part.bytes ++ rest = part.header ++ (part.payload ++ rest) := List.append_assoc ..
  rw [shape, elementsWith_named inner (named.reads position _), if_neg named.opens,
    named.object, if_neg nofun]
  change (Reader.consumed inner >>= _) _ = _
  rw [Reader.bind_ok (reads.consumed _ rest), Part.bytes, List.length_append, Nat.add_assoc,
    ← bind_pure_comp]
  rfl

theorem elements_parts {parts : List Part}
    (each : ∀ part ∈ parts, part.Names registry ∧ ∃ entries, Reads inner part.payload entries)
    (more position : Nat) (rest : Bytes) :
    Reader.elementsWith registry inner (parts.length + more)
        ⟨position, parts.flatMap Part.bytes ++ rest⟩ =
      ((parts.map Part.element ++ ·) <$> Reader.elementsWith registry inner more)
        ⟨position + (parts.flatMap Part.bytes).length, rest⟩ := by
  refine run_parts _ Part.bytes ?_ more position rest
  rw [List.forall₂_map_right_iff, List.forall₂_same]
  intro part member
  obtain ⟨names, entries, reads⟩ := each part member
  exact elementsWith_part names reads

theorem storedElements_named {before start : Cursor} {field : Field}
    (named : Reader.field registry before = .ok field start) (rounds : Nat) :
    registry.storedElements inner (rounds + 1) before =
      (if field.name = arrayEndName then return [] else do
        let (_, body) ← Reader.consumed inner
        return ⟨field, body⟩ :: (← registry.storedElements inner rounds) : Reader _) start := by
  have filled : before.rest.isEmpty = false := by simpa using filled_of_named named
  rw [storedElements, Reader.bind_ok (Reader.get_apply _)]
  simp only [filled]
  exact Reader.bind_ok named

theorem storedElements_end (lawful : registry.Lawful) (rounds : Nat) :
    Reads (registry.storedElements inner (rounds + 1)) [arrayEnd] [] := by
  obtain ⟨field, name, reads⟩ := reads_arrayEnd lawful
  intro position rest
  rw [storedElements_named (reads position rest), if_pos name]
  rfl

theorem storedElements_part {part : Part} (named : part.Names registry) {entries : List Entry}
    (reads : Reads inner part.payload entries) (rounds position : Nat) (rest : Bytes) :
    registry.storedElements inner (rounds + 1) ⟨position, part.bytes ++ rest⟩ =
      ((part.element :: ·) <$> registry.storedElements inner rounds)
        ⟨position + part.bytes.length, rest⟩ := by
  have shape : part.bytes ++ rest = part.header ++ (part.payload ++ rest) := List.append_assoc ..
  rw [shape, storedElements_named (named.reads position _), if_neg named.opens,
    Reader.bind_ok (reads.consumed _ rest), Part.bytes, List.length_append, Nat.add_assoc,
    ← bind_pure_comp]
  rfl

theorem stored_parts {parts : List Part}
    (each : ∀ part ∈ parts, part.Names registry ∧ ∃ entries, Reads inner part.payload entries)
    (more position : Nat) (rest : Bytes) :
    registry.storedElements inner (parts.length + more)
        ⟨position, parts.flatMap Part.bytes ++ rest⟩ =
      ((parts.map Part.element ++ ·) <$> registry.storedElements inner more)
        ⟨position + (parts.flatMap Part.bytes).length, rest⟩ := by
  refine run_parts _ Part.bytes ?_ more position rest
  rw [List.forall₂_map_right_iff, List.forall₂_same]
  intro part member
  obtain ⟨names, entries, reads⟩ := each part member
  exact storedElements_part names reads

theorem elementsWith_refuses {part : Part} (named : part.Names registry) {e : Error}
    (refuses : Refuses inner part.payload e) (rounds : Nat) :
    Refuses (Reader.elementsWith registry inner (rounds + 1)) part.bytes e := by
  intro position rest
  have shape : part.bytes ++ rest = part.header ++ (part.payload ++ rest) := List.append_assoc ..
  obtain ⟨after, failed⟩ := refuses.consumed (position + part.header.length) rest
  refine ⟨after, ?_⟩
  rw [shape, elementsWith_named inner (named.reads position _), if_neg named.opens,
    named.object, if_neg nofun]
  exact Reader.bind_error _ failed

end Elements

end Registry
end LedgerWire
