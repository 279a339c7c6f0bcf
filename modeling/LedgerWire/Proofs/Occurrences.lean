import LedgerWire.Proofs.Consumption
import LedgerWire.Proofs.Decoded

/-!
What occurs in a buffer: every field in the order of the bytes, repeated ones included, down to the
leaves. The readers find exactly that, and a buffer holds it in one way only.
-/

namespace LedgerWire

theorem Reader.consumed_eq_ok {α : Type} {reader : Reader α} {before after : Cursor} {a : α}
    {bytes : Bytes} (h : Reader.consumed reader before = .ok (a, bytes) after) :
    reader before = .ok a after ∧
      bytes = before.rest.take (after.position - before.position) := by
  obtain ⟨_, _, got, h⟩ := Reader.bind_eq_ok.mp h
  cases got
  obtain ⟨_, middle, read, h⟩ := Reader.bind_eq_ok.mp h
  obtain ⟨_, _, got, h⟩ := Reader.bind_eq_ok.mp h
  cases got
  cases h
  exact ⟨read, rfl⟩

namespace Registry
variable {registry : Registry}

variable (registry) in
structure Heads (input : Bytes) (field : Field) (after : Bytes) : Prop where
  known : registry.Known field
  coded : ∃ header, field.header? = some header ∧ input = header.encode ++ after

variable (registry) in
/-- The bytes behind the header of a field spell a leaf of its type, with its rendering. -/
structure SpelledLeaf (field : Field) (payload : Bytes) (leaf : Leaf) (json : Json) : Prop where
  typed : field.wireType? = some (.leaf leaf.type)
  canonical : leaf.Canonical
  bytes : LeafBytes field leaf payload
  rendered : registry.render field (.leaf leaf) = .ok json

variable (registry) in
/-- The input begins with the fields of an object, or with the elements of an array, and the rest
stands behind their end. The value lists all of them in their order: an object has a member for each
field that occurs in it, whether or not another one has its name. -/
inductive Occurrences : WireType → (input rest : Bytes) → Json → Prop
  /-- Objects that are open where the buffer ends, end with it. -/
  | exhausted : Occurrences .object [] [] (.object [])
  | objectEnd {input rest : Bytes} {field : Field} : registry.Heads input field rest →
      field.name = objectEndName → Occurrences .object input rest (.object [])
  | leaf {input payload after rest : Bytes} {field : Field} {leaf : Leaf} {json : Json}
      {members : List (String × Json)} :
      registry.Heads input field (payload ++ after) → field.name ≠ objectEndName →
      registry.SpelledLeaf field payload leaf json →
      Occurrences .object after rest (.object members) →
      Occurrences .object input rest (.object ((field.name, json) :: members))
  | container {input payload after rest : Bytes} {field : Field} {type : WireType} {json : Json}
      {members : List (String × Json)} :
      registry.Heads input field payload → field.name ≠ objectEndName →
      field.wireType? = some type → Occurrences type payload after json →
      Occurrences .object after rest (.object members) →
      Occurrences .object input rest (.object ((field.name, json) :: members))
  | arrayEnd {input rest : Bytes} {field : Field} : registry.Heads input field rest →
      field.name = arrayEndName → Occurrences .array input rest (.array [])
  | element {input payload after rest : Bytes} {field : Field} {json : Json} {items : List Json} :
      registry.Heads input field payload → field.name ≠ arrayEndName → field.isObject = true →
      Occurrences .object payload after json → Occurrences .array after rest (.array items) →
      Occurrences .array input rest (.array (.object [(field.name, json)] :: items))

section Heads
variable {input rest after : Bytes} {field other : Field}

theorem Heads.ne_nil (h : registry.Heads [] field after) : False := by
  obtain ⟨header, -, whole⟩ := h.coded
  exact header.encode_ne_nil (List.append_eq_nil_iff.mp whole.symm).1

theorem Heads.unique (lawful : registry.Lawful) (h : registry.Heads input field after)
    (h' : registry.Heads input other rest) : field = other ∧ after = rest := by
  obtain ⟨header, coded, whole⟩ := h.coded
  obtain ⟨header', coded', whole'⟩ := h'.coded
  have read := reads_header lawful h.known.listed coded 0 after
  have read' := reads_header lawful h'.known.listed coded' 0 rest
  rw [← whole] at read
  rw [← whole', read] at read'
  injection read' with same_field same_cursor
  exact ⟨same_field, congrArg Cursor.rest same_cursor⟩

theorem Heads.without {front tail : Bytes} (h : registry.Heads input field (front ++ tail)) :
    ∃ start, input = start ++ tail ∧ registry.Heads start field front := by
  obtain ⟨known, header, coded, whole⟩ := h
  exact ⟨header.encode ++ front, by rw [whole, List.append_assoc], known, header, coded, rfl⟩

theorem heads_of_field? {name : String} {header : FieldHeader}
    (marked : (registry.field? name).bind Field.header? = some header) (rest : Bytes) :
    ∃ field, field.name = name ∧ registry.Heads (header.encode ++ rest) field rest := by
  obtain ⟨field, known, named, coded⟩ := exists_known_of_field? marked
  exact ⟨field, named, known, header, coded, rfl⟩

theorem heads_of_read {before after : Cursor}
    (h : Reader.field registry before = .ok field after) :
    registry.Heads before.rest field after.rest ∧
      ∃ bytes, Passes before bytes after ∧ bytes ≠ [] := by
  obtain ⟨header, middle, read, named⟩ := Reader.bind_eq_ok.mp h
  obtain ⟨found, rfl⟩ := Reader.ofExcept_eq_ok.mp named
  obtain ⟨known, coded⟩ := known_of_fieldOfHeader found
  have passed := FieldHeader.passes_read read
  exact ⟨⟨known, header, coded, passed.rest⟩, _, passed, header.encode_ne_nil⟩

end Heads

namespace SpelledLeaf
variable {field : Field} {payload payload' after after' : Bytes} {leaf leaf' : Leaf}
  {json json' : Json}

theorem reads (lawful : registry.Lawful) (known : registry.Known field)
    (h : registry.SpelledLeaf field payload leaf json) :
    Reads (Reader.valueAt registry 0 0 field) payload (.leaf leaf) :=
  reads_leaf h.typed (known.variableLength lawful h.typed) h.canonical h.bytes 0 0

theorem unique (lawful : registry.Lawful) (known : registry.Known field)
    (h : registry.SpelledLeaf field payload leaf json)
    (h' : registry.SpelledLeaf field payload' leaf' json')
    (same : payload ++ after = payload' ++ after') : json = json' ∧ after = after' := by
  have read := h.reads lawful known 0 after
  have read' := h'.reads lawful known 0 after'
  rw [same, read'] at read
  injection read with same_value same_cursor
  obtain rfl : leaf' = leaf := Value.leaf.inj same_value
  have rendered := h.rendered
  rw [h'.rendered] at rendered
  exact ⟨(Except.ok.inj rendered).symm, (congrArg Cursor.rest same_cursor).symm⟩

end SpelledLeaf

namespace Occurrences
variable {type : WireType} {input rest rest' : Bytes} {json json' : Json}

theorem not_leaf {type : LeafType} (h : registry.Occurrences (.leaf type) input rest json) :
    False := by
  cases h

theorem not_spelled {field : Field} {payload inside after : Bytes} {leaf : Leaf}
    (h : registry.Occurrences type inside after json) (typed : field.wireType? = some type)
    (spelled : registry.SpelledLeaf field payload leaf json') : False := by
  rw [spelled.typed] at typed
  cases typed
  exact h.not_leaf

theorem closed_object (lawful : registry.Lawful) (rest : Bytes) :
    registry.Occurrences .object (LedgerWire.objectEnd :: rest) rest (.object []) := by
  obtain ⟨field, named, heads⟩ := heads_of_field? lawful.objectMarker rest
  exact .objectEnd heads named

theorem closed_array (lawful : registry.Lawful) (rest : Bytes) :
    registry.Occurrences .array (LedgerWire.arrayEnd :: rest) rest (.array []) := by
  obtain ⟨field, named, heads⟩ := heads_of_field? lawful.arrayMarker rest
  exact .arrayEnd heads named

theorem array_ne_nil (h : registry.Occurrences .array input rest json) : input ≠ [] := by
  rintro rfl
  cases h with
  | arrayEnd heads => exact heads.ne_nil
  | element heads => exact heads.ne_nil

theorem unique (lawful : registry.Lawful) (h : registry.Occurrences type input rest json)
    (h' : registry.Occurrences type input rest' json') : json = json' ∧ rest = rest' := by
  induction h generalizing rest' json' with
  | exhausted =>
    cases h' with
    | exhausted => exact ⟨rfl, rfl⟩
    | objectEnd heads => exact heads.ne_nil.elim
    | leaf heads => exact heads.ne_nil.elim
    | container heads => exact heads.ne_nil.elim
  | objectEnd heads named =>
    cases h' with
    | exhausted => exact heads.ne_nil.elim
    | objectEnd heads' => exact ⟨rfl, (heads.unique lawful heads').2⟩
    | leaf heads' opens => exact absurd named ((heads.unique lawful heads').1 ▸ opens)
    | container heads' opens => exact absurd named ((heads.unique lawful heads').1 ▸ opens)
  | leaf heads opens spelled _ ih =>
    cases h' with
    | exhausted => exact heads.ne_nil.elim
    | objectEnd heads' named => exact absurd named ((heads.unique lawful heads').1 ▸ opens)
    | leaf heads' _ spelled' others =>
      obtain ⟨rfl, same⟩ := heads.unique lawful heads'
      obtain ⟨rfl, rfl⟩ := spelled.unique lawful heads.known spelled' same
      obtain ⟨members, rfl⟩ := ih others
      cases members
      exact ⟨rfl, rfl⟩
    | container heads' _ typed inner =>
      obtain ⟨rfl, -⟩ := heads.unique lawful heads'
      exact (inner.not_spelled typed spelled).elim
  | container heads opens typed inner _ ih_inner ih =>
    cases h' with
    | exhausted => exact heads.ne_nil.elim
    | objectEnd heads' named => exact absurd named ((heads.unique lawful heads').1 ▸ opens)
    | leaf heads' _ spelled =>
      obtain ⟨rfl, -⟩ := heads.unique lawful heads'
      exact (inner.not_spelled typed spelled).elim
    | container heads' _ typed' inner' others =>
      obtain ⟨rfl, rfl⟩ := heads.unique lawful heads'
      rw [typed] at typed'
      cases typed'
      obtain ⟨rfl, rfl⟩ := ih_inner inner'
      obtain ⟨members, rfl⟩ := ih others
      cases members
      exact ⟨rfl, rfl⟩
  | arrayEnd heads named =>
    cases h' with
    | arrayEnd heads' => exact ⟨rfl, (heads.unique lawful heads').2⟩
    | element heads' opens => exact absurd named ((heads.unique lawful heads').1 ▸ opens)
  | element heads opens _ _ _ ih_inner ih =>
    cases h' with
    | arrayEnd heads' named => exact absurd named ((heads.unique lawful heads').1 ▸ opens)
    | element heads' _ _ inner' others =>
      obtain ⟨rfl, rfl⟩ := heads.unique lawful heads'
      obtain ⟨rfl, rfl⟩ := ih_inner inner'
      obtain ⟨items, rfl⟩ := ih others
      cases items
      exact ⟨rfl, rfl⟩

theorem without {tail : Bytes} (h : registry.Occurrences type input (rest ++ tail) json) :
    ∃ start, input = start ++ tail ∧ registry.Occurrences type start rest json := by
  generalize whole : rest ++ tail = behind at h
  induction h generalizing rest with
  | exhausted =>
    obtain ⟨rfl, rfl⟩ := List.append_eq_nil_iff.mp whole
    exact ⟨[], rfl, .exhausted⟩
  | objectEnd heads named =>
    subst whole
    obtain ⟨start, shape, heads⟩ := heads.without
    exact ⟨start, shape, .objectEnd heads named⟩
  | leaf heads opens spelled _ ih =>
    obtain ⟨middle, rfl, others⟩ := ih whole
    rw [← List.append_assoc] at heads
    obtain ⟨start, shape, heads⟩ := heads.without
    exact ⟨start, shape, .leaf heads opens spelled others⟩
  | container heads opens typed _ _ ih_inner ih =>
    obtain ⟨middle, rfl, others⟩ := ih whole
    obtain ⟨inside, rfl, inner⟩ := ih_inner rfl
    obtain ⟨start, shape, heads⟩ := heads.without
    exact ⟨start, shape, .container heads opens typed inner others⟩
  | arrayEnd heads named =>
    subst whole
    obtain ⟨start, shape, heads⟩ := heads.without
    exact ⟨start, shape, .arrayEnd heads named⟩
  | element heads opens object _ _ ih_inner ih =>
    obtain ⟨middle, rfl, others⟩ := ih whole
    obtain ⟨inside, rfl, inner⟩ := ih_inner rfl
    obtain ⟨start, shape, heads⟩ := heads.without
    exact ⟨start, shape, .element heads opens object inner others⟩

theorem alone {before after : Cursor} {bytes : Bytes} (passed : Passes before bytes after)
    (h : registry.Occurrences type before.rest after.rest json) :
    registry.Occurrences type bytes [] json := by
  have followed : registry.Occurrences type before.rest ([] ++ after.rest) json := h
  obtain ⟨start, shape, alone⟩ := followed.without
  rw [passed.rest] at shape
  rwa [List.append_cancel_right shape]

end Occurrences

variable (registry) in
inductive EntryOccurs : Entry → String × Json → Prop
  | leaf {field : Field} {leaf : Leaf} {json : Json} : leaf.Canonical →
      registry.render field (.leaf leaf) = .ok json →
      EntryOccurs ⟨field, .leaf leaf⟩ (field.name, json)
  | object {field : Field} {bytes : Bytes} {json : Json} :
      registry.Occurrences .object bytes [] json →
      EntryOccurs ⟨field, .object bytes⟩ (field.name, json)
  | array {field : Field} {bytes : Bytes} {json : Json} :
      registry.Occurrences .array bytes [] json →
      EntryOccurs ⟨field, .array bytes⟩ (field.name, json)

variable (registry) in
def FindsObject (rounds : Nat) (reader : Reader (List Entry)) : Prop :=
  ∀ before after entries, before.rest.length ≤ rounds → reader before = .ok entries after →
    ∃ bytes members, Passes before bytes after ∧
      registry.Occurrences .object before.rest after.rest (.object members) ∧
      List.Forall₂ registry.EntryOccurs entries members

variable (registry) in
def FindsArray (rounds : Nat) (reader : Reader (List Element)) : Prop :=
  ∀ before after elements, before.rest.length ≤ rounds → reader before = .ok elements after →
    ∃ bytes items, Passes before bytes after ∧
      registry.Occurrences .array before.rest after.rest (.array items)

section Values
variable {rounds levels : Nat} {field : Field} {before after : Cursor}

theorem spelledLeaf_of_read (lawful : registry.Lawful) (known : registry.Known field)
    {type : LeafType} (typed : field.wireType? = some (.leaf type)) {value : Value}
    (h : Reader.valueAt registry rounds levels field before = .ok value after) :
    ∃ leaf payload json, value = .leaf leaf ∧ Passes before payload after ∧
      registry.SpelledLeaf field payload leaf json := by
  have prefixed := known.variableLength lawful typed
  rw [valueAt_eq typed] at h
  have spelled {leaf : Leaf} {payload : Bytes} {announced : Option Nat} {middle : Cursor}
      (read : Leaf.read type announced middle = .ok leaf after)
      (bytes : LeafBytes field leaf payload) (passed : Passes before payload after) :
      ∃ leaf' payload json, Value.leaf leaf = .leaf leaf' ∧ Passes before payload after ∧
        registry.SpelledLeaf field payload leaf' json := by
    obtain ⟨canonical, rfl⟩ := Leaf.canonical_of_read read
    obtain ⟨json, rendered⟩ : ∃ json, registry.render field (.leaf leaf) = .ok json :=
      exists_render canonical field
    exact ⟨leaf, payload, json, rfl, passed, typed, canonical, bytes, rendered⟩
  cases lengthened : field.variableLength with
  | false =>
    rw [lengthened] at h prefixed
    obtain ⟨announced, middle, nothing, h⟩ := Reader.bind_eq_ok.mp h
    cases nothing
    obtain ⟨leaf, read, rfl⟩ := Reader.bind_pure_eq_ok.mp h
    have none_announced : (none : Option Nat).isSome = (WireType.leaf type).prefixed := prefixed
    obtain ⟨announced, -⟩ | ⟨-, passed⟩ := Leaf.passes_read none_announced read
    · cases announced
    · exact spelled read (.plain lengthened) passed
  | true =>
    rw [lengthened, if_pos rfl] at h
    rw [lengthened] at prefixed
    obtain ⟨announced, middle, length_read, h⟩ := Reader.bind_eq_ok.mp h
    rw [← bind_pure_comp] at length_read
    obtain ⟨length, _, length_read, same⟩ := Reader.bind_eq_ok.mp length_read
    cases same
    obtain ⟨front, encoded, front_passed⟩ := LengthPrefix.passes_read length_read
    obtain ⟨leaf, read, rfl⟩ := Reader.bind_pure_eq_ok.mp h
    have some_announced : (some length).isSome = (WireType.leaf type).prefixed := prefixed
    obtain ⟨announced, rfl, rfl⟩ | ⟨announced, passed⟩ := Leaf.passes_read some_announced read
    · cases announced
      cases encoded
      exact spelled read (.omitted lengthened) front_passed
    · obtain announced | ⟨none, -⟩ := announced
      · cases announced
        exact spelled read (.lengthened lengthened encoded) (front_passed.append passed)
      · cases none

theorem entryOccurs_of_read (lawful : registry.Lawful)
    (object : registry.FindsObject rounds (Reader.entries registry rounds levels))
    (array : registry.FindsArray rounds (Reader.elements registry rounds levels))
    (known : registry.Known field) (opens : field.name ≠ objectEndName)
    (enough : before.rest.length ≤ rounds) {value : Value}
    (h : Reader.valueAt registry rounds levels field before = .ok value after) :
    ∃ bytes json, Passes before bytes after ∧
      registry.EntryOccurs ⟨field, value⟩ (field.name, json) ∧
      ∀ input rest members, registry.Heads input field before.rest →
        registry.Occurrences .object after.rest rest (.object members) →
        registry.Occurrences .object input rest (.object ((field.name, json) :: members)) := by
  obtain ⟨type, typed, -⟩ := readAs_of_valueAt h
  have container (plain : type.prefixed = false) : field.variableLength = false :=
    (known.variableLength lawful typed).trans plain
  cases type with
  | leaf type =>
    obtain ⟨leaf, payload, json, rfl, passed, spelled⟩ := spelledLeaf_of_read lawful known typed h
    refine ⟨payload, json, passed, .leaf spelled.canonical spelled.rendered,
      fun input rest members heads others => ?_⟩
    rw [passed.rest] at heads
    exact .leaf heads opens spelled others
  | object =>
    rw [valueAt_eq typed, container rfl] at h
    obtain ⟨_, _, nothing, h⟩ := Reader.bind_eq_ok.mp h
    cases nothing
    obtain ⟨⟨entries, body⟩, _, read, h⟩ := Reader.bind_eq_ok.mp h
    cases h
    obtain ⟨entries_read, rfl⟩ := Reader.consumed_eq_ok read
    obtain ⟨bytes, inner, passed, occurs, -⟩ := object _ _ _ enough entries_read
    rw [passed.consumed]
    exact ⟨bytes, _, passed, .object (occurs.alone passed),
      fun _ _ _ heads others => .container heads opens typed occurs others⟩
  | array =>
    rw [valueAt_eq typed, container rfl] at h
    obtain ⟨_, _, nothing, h⟩ := Reader.bind_eq_ok.mp h
    cases nothing
    obtain ⟨⟨elements, body⟩, _, read, h⟩ := Reader.bind_eq_ok.mp h
    cases h
    obtain ⟨elements_read, rfl⟩ := Reader.consumed_eq_ok read
    obtain ⟨bytes, items, passed, occurs⟩ := array _ _ _ enough elements_read
    rw [passed.consumed]
    exact ⟨bytes, _, passed, .array (occurs.alone passed),
      fun _ _ _ heads others => .container heads opens typed occurs others⟩

end Values

section Runs
variable {rounds levels : Nat}

theorem findsObject_entriesWith (lawful : registry.Lawful)
    (object : registry.FindsObject rounds (Reader.entries registry rounds levels))
    (array : registry.FindsArray rounds (Reader.elements registry rounds levels)) (left : Nat)
    (bound : left ≤ rounds) :
    registry.FindsObject left
      (Reader.entriesWith registry (Reader.valueAt registry rounds levels) left) := by
  induction left with
  | zero =>
    intro before after entries enough h
    cases h
    obtain nothing := List.length_eq_zero_iff.mp (Nat.le_zero.mp enough)
    refine ⟨[], [], .nothing _, ?_, .nil⟩
    rw [nothing]
    exact .exhausted
  | succ left ih =>
    intro before after entries enough h
    cases (entriesWith_eq_ok _).mp h with
    | exhausted => exact ⟨[], [], .nothing _, .exhausted, .nil⟩
    | objectEnd named ends =>
      obtain ⟨heads, front, field_passed, -⟩ := heads_of_read named
      exact ⟨front, [], field_passed, .objectEnd heads ends, .nil⟩
    | entry named opens value_read others_read =>
      obtain ⟨heads, front, field_passed, nonempty⟩ := heads_of_read named
      have fewer := field_passed.length_lt nonempty
      obtain ⟨payload, json, value_passed, entry, step⟩ :=
        entryOccurs_of_read lawful object array heads.known opens (by omega) value_read
      have shorter := value_passed.length_le
      obtain ⟨back, members, others_passed, occurs, matched⟩ :=
        ih (by omega) _ _ _ (by omega) others_read
      exact ⟨_, _, (field_passed.append value_passed).append others_passed,
        step _ _ _ heads occurs, .cons entry matched⟩

theorem findsArray_elementsWith
    (object : registry.FindsObject rounds (Reader.entries registry rounds levels)) (left : Nat) :
    registry.FindsArray rounds
      (Reader.elementsWith registry (Reader.entries registry rounds levels) left) := by
  induction left with
  | zero => exact nofun
  | succ left ih =>
    intro before after elements enough h
    cases (elementsWith_eq_ok _).mp h with
    | arrayEnd named ends =>
      obtain ⟨heads, front, field_passed, -⟩ := heads_of_read named
      exact ⟨front, [], field_passed, .arrayEnd heads ends⟩
    | element named opens is_object body_read others_read =>
      obtain ⟨heads, front, field_passed, -⟩ := heads_of_read named
      have shorter := field_passed.length_le
      obtain ⟨entries_read, -⟩ := Reader.consumed_eq_ok body_read
      obtain ⟨bytes, inner, body_passed, inner_occurs, -⟩ :=
        object _ _ _ (by omega) entries_read
      have shorter_body := body_passed.length_le
      obtain ⟨back, items, others_passed, occurs⟩ := ih _ _ _ (by omega) others_read
      exact ⟨_, _, (field_passed.append body_passed).append others_passed,
        .element heads opens is_object inner_occurs occurs⟩

theorem finds (lawful : registry.Lawful) (rounds levels : Nat) :
    registry.FindsObject rounds (Reader.entries registry rounds levels) ∧
      registry.FindsArray rounds (Reader.elements registry rounds levels) := by
  -- Objects and arrays at once: each opens the other with one level less.
  induction levels with
  | zero => exact ⟨nofun, nofun⟩
  | succ levels ih =>
    exact ⟨findsObject_entriesWith lawful ih.1 ih.2 rounds (Nat.le_refl _),
      findsArray_elementsWith ih.1 rounds⟩

end Runs

end LedgerWire.Registry
