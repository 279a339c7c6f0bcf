import LedgerWire.Proofs.Runs

/-!
Containers are read back and rendered from their bytes. What nests deeper than the levels that are
left is refused for that, wherever it stands.
-/

namespace LedgerWire.Registry
variable {registry : Registry}

variable (registry) in
def renderEntry (levels : Nat) (entry : Entry) : Except Error (String × Json) := do
  return (entry.field.name,
    ← registry.renderWith (registry.renderObject levels) (registry.renderArray levels) entry.field
      entry.value)

variable (registry) in
/-- The bytes behind the header of a field are read back and rendered, or are refused where they
nest deeper than the levels that are left. -/
structure Holds (field : Field) (payload : Bytes) (json : Json) (depth : Nat) : Prop where
  kept : ∃ value,
    (∀ rounds levels, payload.length ≤ rounds → depth ≤ levels →
      Reads (Reader.valueAt registry rounds levels field) payload value) ∧
    ∀ levels, depth ≤ levels →
      registry.renderEntry levels ⟨field, value⟩ = .ok (field.name, json)
  refused : ∀ rounds levels, payload.length ≤ rounds → levels < depth →
    ∃ e, TooDeep e ∧ Refuses (Reader.valueAt registry rounds levels field) payload e

variable (registry) in
/-- The fields of an object are read back, up to the end marker and up to the end of the buffer, and
rendered, or are refused where they nest deeper than the levels that are left. -/
structure Shown (body : Bytes) (members : List (String × Json)) (depth : Nat) : Prop where
  kept : ∃ entries : List Entry,
    (∀ rounds levels, body.length < rounds → depth < levels →
      Reads (Reader.entries registry rounds levels) (body ++ [objectEnd]) entries) ∧
    (∀ rounds levels position, body.length ≤ rounds → depth < levels →
      Reader.entries registry rounds levels ⟨position, body⟩ =
        .ok entries ⟨position + body.length, []⟩) ∧
    ∀ levels, depth ≤ levels → entries.mapM (registry.renderEntry levels) = .ok members
  refused : ∀ rounds levels, body.length ≤ rounds → levels ≤ depth →
    ∃ e, TooDeep e ∧ Refuses (Reader.entries registry rounds levels) body e
  distinct : DistinctNames members

theorem length_le_flatMap_bytes {parts : List Part} (headers : ∀ part ∈ parts, part.header ≠ []) :
    parts.length ≤ (parts.flatMap Part.bytes).length := by
  induction parts with
  | nil => exact Nat.le_refl 0
  | cons part parts ih =>
    have header := List.length_pos_iff.mpr (headers part List.mem_cons_self)
    have rest := ih fun other member => headers other (List.mem_cons_of_mem _ member)
    rw [List.flatMap_cons, List.length_append, Part.bytes, List.length_append, List.length_cons]
    omega

theorem length_payload_le {parts : List Part} {part : Part} (member : part ∈ parts) :
    part.payload.length ≤ (parts.flatMap Part.bytes).length := by
  obtain ⟨front, back, rfl⟩ := List.append_of_mem member
  simp only [List.flatMap_append, List.flatMap_cons, List.length_append, Part.bytes]
  omega

theorem exists_first_deeper {parts : List Part} {levels : Nat}
    (deeper : ¬ ∀ part ∈ parts, part.depth ≤ levels) :
    ∃ front part back, parts = front ++ part :: back ∧ levels < part.depth ∧
      ∀ other ∈ front, other.depth ≤ levels := by
  cases found : parts.find? fun part => levels < part.depth with
  | none =>
    refine absurd (fun part member => ?_) deeper
    simpa using List.find?_eq_none.mp found part member
  | some part =>
    obtain ⟨deep, front, back, shape, shallow⟩ := List.find?_eq_some_iff_append.mp found
    exact ⟨front, part, back, shape, by simpa using deep,
      fun other member => by simpa using shallow other member⟩

section Body
variable {parts : List Part} {depth : Nat}

theorem entries_succ (rounds levels : Nat) :
    Reader.entries registry rounds (levels + 1) =
      Reader.entriesWith registry (Reader.valueAt registry rounds levels) rounds := rfl

theorem refuses_entries_zero (rounds : Nat) (body : Bytes) :
    Refuses (Reader.entries registry rounds 0) body
      (.nestingTooDeep WireType.object.name maxNesting) :=
  fun position rest => ⟨⟨position, body ++ rest⟩, rfl⟩

variable (registry) in
def PartRead (rounds levels : Nat) (part : Part) (entry : Entry) : Prop :=
  part.Named registry ∧ entry.field = part.field ∧
    Reads (Reader.valueAt registry rounds levels part.field) part.payload entry.value

section Entries
variable {entries : List Entry} {rounds levels : Nat}

theorem entries_parts (each : List.Forall₂ (registry.PartRead rounds levels) parts entries)
    (more position : Nat) (rest : Bytes) :
    Reader.entriesWith registry (Reader.valueAt registry rounds levels) (parts.length + more)
        ⟨position, parts.flatMap Part.bytes ++ rest⟩ =
      ((entries ++ ·) <$> Reader.entriesWith registry (Reader.valueAt registry rounds levels) more)
        ⟨position + (parts.flatMap Part.bytes).length, rest⟩ := by
  refine run_parts _ Part.bytes ?_ more position rest
  refine each.imp fun part entry ⟨named, field, reads⟩ => ?_
  obtain ⟨entry_field, value⟩ := entry
  cases field
  exact entriesWith_part named reads

theorem reads_closed_parts (lawful : registry.Lawful)
    (each : List.Forall₂ (registry.PartRead rounds levels) parts entries)
    (enough : parts.length < rounds) :
    Reads (Reader.entries registry rounds (levels + 1)) (parts.flatMap Part.bytes ++ [objectEnd])
      entries := by
  intro position rest
  obtain ⟨more, rfl⟩ : ∃ more, rounds = parts.length + (more + 1) :=
    ⟨rounds - parts.length - 1, by omega⟩
  have stop := entriesWith_end (Reader.valueAt registry (parts.length + (more + 1)) levels) lawful
    more (position + (parts.flatMap Part.bytes).length) rest
  rw [entries_succ, List.append_assoc, entries_parts each, map_ok _ stop, List.append_nil,
    List.length_append, Nat.add_assoc]

theorem entries_open_parts (each : List.Forall₂ (registry.PartRead rounds levels) parts entries)
    (enough : parts.length ≤ rounds) (position : Nat) :
    Reader.entries registry rounds (levels + 1) ⟨position, parts.flatMap Part.bytes⟩ =
      .ok entries ⟨position + (parts.flatMap Part.bytes).length, []⟩ := by
  obtain ⟨more, rfl⟩ : ∃ more, rounds = parts.length + more := ⟨rounds - parts.length, by omega⟩
  have whole := entries_parts each more position []
  rw [List.append_nil] at whole
  rw [entries_succ, whole, map_ok _ (entriesWith_empty _ _ _), List.append_nil]

end Entries

theorem refuses_parts {front back : List Part} {part : Part} {rounds levels : Nat} {e : Error}
    (front_read : ∀ other ∈ front, other.Named registry ∧ ∃ value,
      Reads (Reader.valueAt registry rounds levels other.field) other.payload value)
    (named : part.Named registry)
    (refuses : Refuses (Reader.valueAt registry rounds levels part.field) part.payload e)
    (enough : front.length < rounds) :
    Refuses (Reader.entries registry rounds (levels + 1))
      ((front ++ part :: back).flatMap Part.bytes) e := by
  have kept : ∀ other ∈ front, ∃ entry, registry.PartRead rounds levels other entry := by
    intro other member
    obtain ⟨named, value, reads⟩ := front_read other member
    exact ⟨⟨other.field, value⟩, named, rfl, reads⟩
  obtain ⟨entries, matched⟩ := exists_forall₂ kept
  obtain ⟨more, enough_rounds⟩ : ∃ more, rounds = front.length + (more + 1) :=
    ⟨rounds - front.length - 1, by omega⟩
  intro position rest
  obtain ⟨after, failed⟩ := entriesWith_refuses named refuses more
    (position + (front.flatMap Part.bytes).length) (back.flatMap Part.bytes ++ rest)
  have whole := entries_parts matched (more + 1) position
    (part.bytes ++ (back.flatMap Part.bytes ++ rest))
  rw [← enough_rounds, map_error _ failed] at whole
  refine ⟨after, ?_⟩
  rw [entries_succ, List.flatMap_append, List.flatMap_cons, List.append_assoc, List.append_assoc,
    whole]

theorem refuses_deeper (each : ∀ part ∈ parts, part.Named registry ∧
      Holds registry part.field part.payload part.json part.depth)
    (depth_le : ∀ n, depth ≤ n ↔ ∀ part ∈ parts, part.depth ≤ n) {rounds levels : Nat}
    (enough : (parts.flatMap Part.bytes).length ≤ rounds) (deep : levels ≤ depth) :
    ∃ e, TooDeep e ∧
      Refuses (Reader.entries registry rounds levels) (parts.flatMap Part.bytes) e := by
  cases levels with
  | zero => exact ⟨_, ⟨.object, rfl⟩, refuses_entries_zero rounds _⟩
  | succ levels =>
    -- The parts before the first one that nests too deep are read, and that one is refused.
    obtain ⟨front, part, back, rfl, deeper, shallow⟩ := exists_first_deeper
      fun all => Nat.not_lt.mpr ((depth_le levels).mpr all) deep
    have count := length_le_flatMap_bytes fun other member => (each other member).1.nonempty
    have here : part ∈ front ++ part :: back := by simp
    obtain ⟨named, holds⟩ := each part here
    obtain ⟨e, too_deep, refuses⟩ :=
      holds.refused rounds levels (Nat.le_trans (length_payload_le here) enough) deeper
    refine ⟨e, too_deep, refuses_parts (fun other member => ?_) named refuses ?_⟩
    · have before : other ∈ front ++ part :: back := List.mem_append_left _ member
      obtain ⟨other_named, other_holds⟩ := each other before
      obtain ⟨value, reads, -⟩ := other_holds.kept
      exact ⟨other_named, value, reads rounds levels
        (Nat.le_trans (length_payload_le before) enough) (shallow other member)⟩
    · rw [List.length_append, List.length_cons] at count
      omega

theorem shown_of_parts (lawful : registry.Lawful)
    (each : ∀ part ∈ parts, part.Named registry ∧
      Holds registry part.field part.payload part.json part.depth)
    (distinct : (parts.map fun part => part.field.name).Nodup)
    (depth_le : ∀ n, depth ≤ n ↔ ∀ part ∈ parts, part.depth ≤ n) :
    Shown registry (parts.flatMap Part.bytes)
      (parts.map fun part => (part.field.name, part.json)) depth := by
  have count := length_le_flatMap_bytes fun part member => (each part member).1.nonempty
  have kept : ∀ part ∈ parts, ∃ entry : Entry, part ∈ parts ∧ entry.field = part.field ∧
      (∀ rounds levels, part.payload.length ≤ rounds → part.depth ≤ levels →
        Reads (Reader.valueAt registry rounds levels part.field) part.payload entry.value) ∧
      ∀ levels, part.depth ≤ levels →
        registry.renderEntry levels entry = .ok (part.field.name, part.json) := by
    intro part member
    obtain ⟨value, reads, renders⟩ := (each part member).2.kept
    exact ⟨⟨part.field, value⟩, member, rfl, reads, renders⟩
  obtain ⟨entries, matched⟩ := exists_forall₂ kept
  have run (rounds levels : Nat) (enough : (parts.flatMap Part.bytes).length ≤ rounds)
      (shallow : depth ≤ levels) : List.Forall₂ (registry.PartRead rounds levels) parts entries :=
    matched.imp fun part entry ⟨member, field, reads, _⟩ => ⟨(each part member).1, field,
      reads rounds levels (Nat.le_trans (length_payload_le member) enough)
        ((depth_le levels).mp shallow part member)⟩
  constructor
  case kept =>
    refine ⟨entries, ?_, ?_, ?_⟩
    · intro rounds levels enough shallow
      obtain ⟨levels, rfl⟩ :=
        Nat.exists_eq_add_one_of_ne_zero (Nat.ne_of_gt (Nat.zero_lt_of_lt shallow))
      exact reads_closed_parts lawful
        (run rounds levels (Nat.le_of_lt enough) (Nat.le_of_lt_succ shallow)) (by omega)
    · intro rounds levels position enough shallow
      obtain ⟨levels, rfl⟩ :=
        Nat.exists_eq_add_one_of_ne_zero (Nat.ne_of_gt (Nat.zero_lt_of_lt shallow))
      exact entries_open_parts (run rounds levels enough (Nat.le_of_lt_succ shallow)) (by omega)
        position
    · intro levels shallow
      rw [mapM_eq_ok, List.forall₂_map_right_iff]
      exact matched.flip.imp fun entry part ⟨member, _, _, renders⟩ =>
        renders levels ((depth_le levels).mp shallow part member)
  case refused =>
    intro rounds levels enough deep
    exact refuses_deeper each depth_le enough deep
  case distinct =>
    rw [DistinctNames, List.map_map]
    exact distinct

end Body

theorem setMember_of_absent {α : Type} {name : String} {value : α} {members : List (String × α)}
    (absent : name ∉ members.map Prod.fst) :
    setMember name value members = members ++ [(name, value)] := by
  induction members with
  | nil => rfl
  | cons first rest ih =>
    rw [List.map_cons, List.mem_cons, not_or] at absent
    rw [setMember, if_neg (Ne.symm absent.1), ih absent.2]
    rfl

theorem edited_nil {α : Type} {members : List (String × α)} (distinct : DistinctNames members) :
    edited members [] = members := by
  suffices general : ∀ before : List (String × α), DistinctNames (before ++ members) →
      edited members before = before ++ members from general [] distinct
  induction members with
  | nil => exact fun before _ => (List.append_nil before).symm
  | cons first rest ih =>
    obtain ⟨name, value⟩ := first
    intro before all_distinct
    have shape : before ++ (name, value) :: rest = (before ++ [(name, value)]) ++ rest := by simp
    have absent : name ∉ before.map Prod.fst := by
      rw [DistinctNames, List.map_append, List.map_cons] at all_distinct
      intro repeated
      exact (List.nodup_append.mp all_distinct).2.2 _ repeated _ List.mem_cons_self rfl
    rw [shape] at all_distinct ⊢
    rw [edited, List.foldl_cons, ← edited, setMember_of_absent absent]
    exact ih (List.Nodup.of_cons distinct) _ all_distinct

section Shown
variable {body : Bytes} {members : List (String × Json)} {depth : Nat}

theorem runOn_eq_ok {α : Type} {reader : Reader α} {bytes : Bytes} {a : α} {after : Cursor}
    (h : reader ⟨0, bytes⟩ = .ok a after) : reader.runOn bytes = .ok a := by
  rw [Reader.runOn, Cursor.start, h]

theorem exists_of_runOn {α : Type} {reader : Reader α} {bytes : Bytes} {a : α}
    (h : reader.runOn bytes = .ok a) : ∃ after, reader ⟨0, bytes⟩ = .ok a after := by
  unfold Reader.runOn at h
  split at h
  · rename_i after read
    cases h
    exact ⟨after, read⟩
  · cases h

theorem renderObject_of_entries {bytes : Bytes} {levels : Nat} {entries : List Entry}
    (distinct : DistinctNames members)
    (read : (Reader.entries registry bytes.length (levels + 1)).runOn bytes = .ok entries)
    (rendered : entries.mapM (registry.renderEntry levels) = .ok members) :
    registry.renderObject (levels + 1) bytes = .ok (.object members) := by
  rw [renderObject, read]
  change (entries.mapM (registry.renderEntry levels) >>= _) = _
  rw [rendered]
  exact congrArg (fun all => Except.ok (Json.object all)) (edited_nil distinct)

theorem Shown.renderObject (shown : registry.Shown body members depth) {levels : Nat}
    (shallow : depth ≤ levels) :
    registry.renderObject (levels + 1) (body ++ [objectEnd]) = .ok (.object members) := by
  obtain ⟨entries, closed, -, rendered⟩ := shown.kept
  refine renderObject_of_entries shown.distinct ?_ (rendered levels shallow)
  have read := closed (body ++ [objectEnd]).length (levels + 1) (by simp) (by omega) 0 []
  rw [List.append_nil] at read
  exact runOn_eq_ok read

/-- Bytes are decoded where an object is read from them to the end and is rendered. -/
theorem decodeBytes_eq_ok {bytes : Bytes} {json : Json} :
    registry.decodeBytes bytes = .ok json ↔ ∃ entries object last,
      Reader.consumed (Reader.entries registry bytes.length topLevels) (.start bytes) =
        .ok (entries, object) ⟨last, []⟩ ∧
      registry.renderObject topLevels object = .ok json := by
  constructor
  · intro h
    unfold decodeBytes at h
    split at h
    · cases h
    · rename_i entries object after read
      split at h
      · rename_i empty
        obtain ⟨last, rest⟩ := after
        obtain rfl : rest = [] := List.isEmpty_iff.mp empty
        exact ⟨entries, object, last, read, h⟩
      · cases h
  · rintro ⟨entries, object, last, read, rendered⟩
    rw [decodeBytes, read]
    exact rendered

theorem Shown.decodeBytes (shown : registry.Shown body members depth)
    (shallow : depth ≤ maxNesting) : registry.decodeBytes body = .ok (.object members) := by
  obtain ⟨entries, -, opened, rendered⟩ := shown.kept
  have read := opened body.length topLevels 0 (Nat.le_refl _) (Nat.lt_succ_of_le shallow)
  have whole : Reader.consumed (Reader.entries registry body.length topLevels) ⟨0, body⟩ =
      .ok (entries, body) ⟨0 + body.length, []⟩ := by
    rw [Reader.consumed, Reader.bind_ok (Reader.get_apply _), Reader.bind_ok read,
      Reader.bind_ok (Reader.get_apply _)]
    simp
  exact decodeBytes_eq_ok.mpr ⟨entries, body, _, whole,
    renderObject_of_entries shown.distinct (runOn_eq_ok read) (rendered maxNesting shallow)⟩

theorem Shown.decodeBytes_refused (shown : registry.Shown body members depth)
    (deep : maxNesting < depth) :
    ∃ e, TooDeep e ∧ registry.decodeBytes body = .error e := by
  obtain ⟨e, too_deep, refuses⟩ := shown.refused body.length topLevels (Nat.le_refl _) deep
  obtain ⟨after, failed⟩ := refuses.consumed 0 []
  rw [List.append_nil] at failed
  refine ⟨e, too_deep, ?_⟩
  rw [Registry.decodeBytes, Cursor.start, failed]

end Shown

section Values
variable {field : Field}

theorem valueAt_eq {type : WireType} (typed : field.wireType? = some type) (rounds levels : Nat) :
    Reader.valueAt registry rounds levels field =
      ((if field.variableLength then some <$> LengthPrefix.read else pure none) >>= fun announced =>
        match type with
        | .leaf type => return .leaf (← Leaf.read type announced)
        | .object => return .object (← Reader.consumed (Reader.entries registry rounds levels)).2
        | .array =>
          return .array (← Reader.consumed (Reader.elements registry rounds levels)).2) := by
  rw [Reader.valueAt, Reader.valueWith, wireType_eq_ok.mpr typed]
  cases field.variableLength <;> rfl

theorem renderEntry_eq {levels : Nat} {value : Value} {json : Json}
    (h : registry.renderWith (registry.renderObject levels) (registry.renderArray levels) field
      value = .ok json) :
    registry.renderEntry levels ⟨field, value⟩ = .ok (field.name, json) := by
  rw [renderEntry, h]
  rfl

theorem renderWith_container (object array : Bytes → Except Error Json) (field : Field)
    (bytes : Bytes) :
    registry.renderWith object array field (.object bytes) = object bytes ∧
      registry.renderWith object array field (.array bytes) = array bytes := by
  constructor
  · have unnamed : registry.nameOfValue? field (.object bytes) = none := by
      rw [nameOfValue?]
      cases Enumeration.ofName? field.name <;> rfl
    unfold renderWith
    rw [unnamed]
  · have unnamed : registry.nameOfValue? field (.array bytes) = none := by
      rw [nameOfValue?]
      cases Enumeration.ofName? field.name <;> rfl
    unfold renderWith
    rw [unnamed]

theorem holds_object (typed : field.wireType? = some .object) (plain : field.variableLength = false)
    {body : Bytes} {members : List (String × Json)} {depth : Nat}
    (shown : registry.Shown body members depth) :
    registry.Holds field (body ++ [objectEnd]) (.object members) (depth + 1) := by
  obtain ⟨entries, closed, -, -⟩ := shown.kept
  have length : (body ++ [objectEnd]).length = body.length + 1 := by simp
  refine ⟨⟨.object (body ++ [objectEnd]), fun rounds levels enough shallow => ?_,
    fun levels shallow => ?_⟩, fun rounds levels enough deep => ?_⟩
  · rw [valueAt_eq typed, plain]
    exact Reads.after (fun _ => rfl)
      ((closed rounds levels (by omega) (by omega)).consumed.map rfl)
  · obtain ⟨levels, rfl⟩ := Nat.exists_eq_add_one_of_ne_zero (n := levels) (by omega)
    apply renderEntry_eq
    rw [(renderWith_container ..).1, shown.renderObject (show depth ≤ levels by omega)]
  · obtain ⟨e, too_deep, refuses⟩ := shown.refused rounds levels (by omega) (by omega)
    refine ⟨e, too_deep, ?_⟩
    rw [valueAt_eq typed, plain]
    exact Refuses.skip (fun _ => rfl) (refuses.append [objectEnd]).consumed.bind

/-- An element of an array: an object with the name of its field. -/
structure Part.Encloses (registry : Registry) (part : Part) : Prop where
  names : part.Names registry
  shown : ∃ body members depth, part.payload = body ++ [objectEnd] ∧ part.json = .object members ∧
    part.depth = depth + 1 ∧ registry.Shown body members depth

theorem Part.Encloses.reads {part : Part} (h : part.Encloses registry) (rounds levels : Nat)
    (enough : part.payload.length ≤ rounds) (shallow : part.depth ≤ levels) :
    ∃ entries, Reads (Reader.entries registry rounds levels) part.payload entries := by
  obtain ⟨body, members, depth, payload, -, deeper, shown⟩ := h.shown
  obtain ⟨entries, closed, -, -⟩ := shown.kept
  have length : part.payload.length = body.length + 1 := by simp [payload]
  rw [payload]
  exact ⟨entries, closed rounds levels (by omega) (by omega)⟩

theorem Part.Encloses.refuses {part : Part} (h : part.Encloses registry) (rounds levels : Nat)
    (enough : part.payload.length ≤ rounds) (deep : levels < part.depth) :
    ∃ e, TooDeep e ∧ Refuses (Reader.entries registry rounds levels) part.payload e := by
  obtain ⟨body, members, depth, payload, -, deeper, shown⟩ := h.shown
  have length : part.payload.length = body.length + 1 := by simp [payload]
  obtain ⟨e, too_deep, refuses⟩ := shown.refused rounds levels (by omega) (by omega)
  rw [payload]
  exact ⟨e, too_deep, refuses.append [objectEnd]⟩

theorem Part.Encloses.renders {part : Part} (h : part.Encloses registry) {levels : Nat}
    (shallow : part.depth ≤ levels) :
    registry.renderObject levels part.payload = .ok part.json := by
  obtain ⟨body, members, depth, payload, json, deeper, shown⟩ := h.shown
  obtain ⟨levels, rfl⟩ := Nat.exists_eq_add_one_of_ne_zero (n := levels) (by omega)
  rw [payload, json]
  exact shown.renderObject (by omega)

section Array
variable {parts : List Part} {depth : Nat}

theorem elements_succ (rounds levels : Nat) :
    Reader.elements registry rounds (levels + 1) =
      Reader.elementsWith registry (Reader.entries registry rounds levels) rounds := rfl

theorem Part.Encloses.all_read (each : ∀ part ∈ parts, part.Encloses registry) (rounds levels : Nat)
    (enough : ∀ part ∈ parts, part.payload.length ≤ rounds)
    (shallow : ∀ part ∈ parts, part.depth ≤ levels) :
    ∀ part ∈ parts, part.Names registry ∧
      ∃ entries, Reads (Reader.entries registry rounds levels) part.payload entries :=
  fun part member => ⟨(each part member).names,
    (each part member).reads rounds levels (enough part member) (shallow part member)⟩

theorem reads_elements (lawful : registry.Lawful) (each : ∀ part ∈ parts, part.Encloses registry)
    {rounds levels : Nat} (enough : (parts.flatMap Part.bytes).length < rounds)
    (shallow : ∀ part ∈ parts, part.depth ≤ levels) :
    Reads (Reader.elements registry rounds (levels + 1)) (parts.flatMap Part.bytes ++ [arrayEnd])
      (parts.map Part.element) := by
  have count := length_le_flatMap_bytes fun part member => (each part member).names.nonempty
  have payload (part : Part) (member : part ∈ parts) := length_payload_le member
  obtain ⟨more, enough_rounds⟩ : ∃ more, rounds = parts.length + (more + 1) :=
    ⟨rounds - parts.length - 1, by omega⟩
  have read := Part.Encloses.all_read each rounds levels
    (fun part member => Nat.le_trans (payload part member) (Nat.le_of_lt enough)) shallow
  intro position rest
  have stop := elementsWith_end (Reader.entries registry rounds levels) lawful more
    (position + (parts.flatMap Part.bytes).length) rest
  have whole := elements_parts read (more + 1) position ([arrayEnd] ++ rest)
  rw [map_ok _ stop, ← enough_rounds] at whole
  rw [elements_succ, List.append_assoc, whole, List.append_nil, List.length_append, Nat.add_assoc]

theorem refuses_elements (each : ∀ part ∈ parts, part.Encloses registry) (rounds levels : Nat)
    (enough : (parts.flatMap Part.bytes).length ≤ rounds)
    (deep : ¬ ∀ part ∈ parts, part.depth ≤ levels) :
    ∃ e, TooDeep e ∧ Refuses (Reader.elements registry rounds (levels + 1))
      (parts.flatMap Part.bytes) e := by
  have count := length_le_flatMap_bytes fun part member => (each part member).names.nonempty
  have payload (part : Part) (member : part ∈ parts) := length_payload_le member
  obtain ⟨front, part, back, rfl, deeper, shallow⟩ := exists_first_deeper deep
  have here : part ∈ front ++ part :: back := by simp
  have before (other : Part) (member : other ∈ front) : other ∈ front ++ part :: back :=
    List.mem_append_left _ member
  obtain ⟨e, too_deep, refuses⟩ := (each part here).refuses rounds levels
    (Nat.le_trans (payload part here) enough) deeper
  rw [List.length_append, List.length_cons] at count
  obtain ⟨more, enough_rounds⟩ : ∃ more, rounds = front.length + (more + 1) :=
    ⟨rounds - front.length - 1, by omega⟩
  have read := Part.Encloses.all_read (fun other member => each other (before other member)) rounds
    levels (fun other member => Nat.le_trans (payload other (before other member)) enough) shallow
  refine ⟨e, too_deep, fun position rest => ?_⟩
  obtain ⟨after, failed⟩ := elementsWith_refuses (each part here).names refuses more
    (position + (front.flatMap Part.bytes).length) (back.flatMap Part.bytes ++ rest)
  have whole := elements_parts read (more + 1) position
    (part.bytes ++ (back.flatMap Part.bytes ++ rest))
  rw [← enough_rounds, map_error _ failed] at whole
  refine ⟨after, ?_⟩
  rw [elements_succ, List.flatMap_append, List.flatMap_cons, List.append_assoc, List.append_assoc,
    whole]

theorem renderArray_of_parts (lawful : registry.Lawful)
    (each : ∀ part ∈ parts, part.Encloses registry) {levels : Nat}
    (shallow : ∀ part ∈ parts, part.depth ≤ levels) :
    registry.renderArray (levels + 1) (parts.flatMap Part.bytes ++ [arrayEnd]) =
      .ok (.array (parts.map fun part => .object [(part.field.name, part.json)])) := by
  have count := length_le_flatMap_bytes fun part member => (each part member).names.nonempty
  have payload (part : Part) (member : part ∈ parts) := length_payload_le member
  have length : (parts.flatMap Part.bytes ++ [arrayEnd]).length =
      (parts.flatMap Part.bytes).length + 1 := by simp
  generalize whole_length : (parts.flatMap Part.bytes ++ [arrayEnd]).length = rounds at *
  obtain ⟨more, enough_rounds⟩ : ∃ more, rounds = parts.length + (more + 1) :=
    ⟨rounds - parts.length - 1, by omega⟩
  have read := Part.Encloses.all_read each rounds levels
    (fun part member => Nat.le_trans (payload part member) (by omega)) shallow
  have stop : registry.storedElements (Reader.entries registry rounds levels) (more + 1)
      ⟨0 + (parts.flatMap Part.bytes).length, [arrayEnd] ++ []⟩ = _ :=
    storedElements_end lawful more _ []
  have whole := stored_parts read (more + 1) 0 ([arrayEnd] ++ [])
  rw [map_ok _ stop, ← enough_rounds, List.append_nil] at whole
  have items : (parts.map Part.element).mapM (fun element => do
      return Json.object [(element.field.name, ← registry.renderObject levels element.body)]) =
      .ok (parts.map fun part => .object [(part.field.name, part.json)]) := by
    rw [mapM_eq_ok, List.forall₂_map_left_iff, List.forall₂_map_right_iff, List.forall₂_same]
    intro part member
    have rendered := (each part member).renders (shallow part member)
    rw [Part.element, rendered]
    rfl
  rw [renderArray, whole_length, runOn_eq_ok whole, List.append_nil]
  exact bind_eq_ok.mpr ⟨_, rfl, bind_eq_ok.mpr ⟨_, items, rfl⟩⟩

theorem holds_array (lawful : registry.Lawful) (typed : field.wireType? = some .array)
    (plain : field.variableLength = false) (each : ∀ part ∈ parts, part.Encloses registry)
    (depth_le : ∀ n, depth ≤ n ↔ ∀ part ∈ parts, part.depth ≤ n) :
    registry.Holds field (parts.flatMap Part.bytes ++ [arrayEnd])
      (.array (parts.map fun part => .object [(part.field.name, part.json)])) (depth + 1) := by
  have length : (parts.flatMap Part.bytes ++ [arrayEnd]).length =
      (parts.flatMap Part.bytes).length + 1 := by simp
  refine ⟨⟨.array (parts.flatMap Part.bytes ++ [arrayEnd]), fun rounds levels enough shallow => ?_,
    fun levels shallow => ?_⟩, fun rounds levels enough deep => ?_⟩
  · obtain ⟨levels, rfl⟩ := Nat.exists_eq_add_one_of_ne_zero (n := levels) (by omega)
    rw [valueAt_eq typed, plain]
    exact Reads.after (fun _ => rfl) ((reads_elements lawful each (by omega)
      ((depth_le levels).mp (by omega))).consumed.map rfl)
  · obtain ⟨levels, rfl⟩ := Nat.exists_eq_add_one_of_ne_zero (n := levels) (by omega)
    apply renderEntry_eq
    rw [(renderWith_container ..).2,
      renderArray_of_parts lawful each ((depth_le levels).mp (by omega))]
  · rw [valueAt_eq typed, plain]
    cases levels with
    | zero =>
      refine ⟨_, ⟨.array, rfl⟩, Refuses.skip (fun _ => rfl) (Refuses.consumed ?_).bind⟩
      exact fun position rest => ⟨⟨position, _ ++ rest⟩, rfl⟩
    | succ levels =>
      obtain ⟨e, too_deep, refuses⟩ := refuses_elements each rounds levels (by omega)
        fun all => by have shallow := (depth_le levels).mpr all; omega
      exact ⟨e, too_deep,
        Refuses.skip (fun _ => rfl) (refuses.append [arrayEnd]).consumed.bind⟩

end Array

/-- The bytes behind the header of a field for a leaf: those of the leaf, with their length in front
where the field has one. An account may be left out, and stands for the one of zeros then. -/
inductive LeafBytes (field : Field) : Leaf → Bytes → Prop
  | plain {leaf : Leaf} : field.variableLength = false → LeafBytes field leaf leaf.toBytes
  | lengthened {leaf : Leaf} {front : Bytes} : field.variableLength = true →
      LengthPrefix.encode leaf.toBytes.length = .ok front →
      LeafBytes field leaf (front ++ leaf.toBytes)
  | omitted : field.variableLength = true → LeafBytes field (.account .zero) [0]

theorem reads_leaf {leaf : Leaf} (typed : field.wireType? = some (.leaf leaf.type))
    (prefixed : field.variableLength = (WireType.leaf leaf.type).prefixed)
    (canonical : leaf.Canonical) {payload : Bytes} (spelled : LeafBytes field leaf payload)
    (rounds levels : Nat) :
    Reads (Reader.valueAt registry rounds levels field) payload (.leaf leaf) := by
  rw [valueAt_eq typed]
  cases spelled with
  | plain plain =>
    rw [plain] at prefixed ⊢
    exact Reads.after (fun _ => rfl)
      ((Leaf.read_toBytes canonical (.inr ⟨rfl, prefixed.symm⟩)).map rfl)
  | lengthened variable_length length =>
    rw [variable_length, if_pos rfl]
    have announced : Reads (some <$> LengthPrefix.read) _ (some leaf.toBytes.length) :=
      fun position rest => map_ok some (LengthPrefix.read_encode length position rest)
    exact announced.bind ((Leaf.read_toBytes canonical (.inl rfl)).map rfl)
  | omitted variable_length =>
    rw [variable_length, if_pos rfl]
    have announced : Reads (some <$> LengthPrefix.read) [0] (some 0) := fun _ _ => rfl
    have nothing : Reads (do return Value.leaf (← Leaf.read .account (some 0))) []
        (.leaf (.account .zero)) := fun _ _ => rfl
    exact announced.bind nothing

theorem holds_leaf {leaf : Leaf} (typed : field.wireType? = some (.leaf leaf.type))
    (prefixed : field.variableLength = (WireType.leaf leaf.type).prefixed)
    (canonical : leaf.Canonical) {json : Json}
    (rendered : registry.render field (.leaf leaf) = .ok json) {payload : Bytes}
    (spelled : LeafBytes field leaf payload) : registry.Holds field payload json 0 :=
  ⟨⟨.leaf leaf,
    fun rounds levels _ _ => reads_leaf typed prefixed canonical spelled rounds levels,
    fun _ _ => renderEntry_eq ((renderWith_leaf ..).trans rendered)⟩, nofun⟩

end Values

end LedgerWire.Registry
