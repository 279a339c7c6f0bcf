import LedgerWire.Proofs.ContainerRendering
import LedgerWire.Proofs.Repeats

namespace LedgerWire.Registry
variable {registry : Registry} {field : Field} {levels rounds left : Nat}

variable (registry) in
/-- The input begins with the fields of an object, and the front of it ends where one of them may
begin, or the end marker: in that object, or in an object in it that is not in an array. -/
inductive FieldBoundary : (input front : Bytes) → Prop
  | here (input : Bytes) : FieldBoundary input []
  | leaf {input front payload after place : Bytes} {field : Field} {leaf : Leaf} {json : Json} :
      registry.Heads input field (payload ++ after) →
      registry.Heads front field (payload ++ place) → field.name ≠ objectEndName →
      registry.SpelledLeaf field payload leaf json → FieldBoundary after place →
      FieldBoundary input front
  | container {input front payload after place : Bytes} {field : Field} {type : WireType}
      {json : Json} :
      registry.Heads input field (payload ++ after) →
      registry.Heads front field (payload ++ place) → field.name ≠ objectEndName →
      field.wireType? = some type → registry.Occurrences type (payload ++ after) after json →
      FieldBoundary after place → FieldBoundary input front
  | inside {input front payload place : Bytes} {field : Field} :
      registry.Heads input field payload → registry.Heads front field place →
      field.name ≠ objectEndName → field.wireType? = some .object → FieldBoundary payload place →
      FieldBoundary input front

variable (registry) in
/-- The front is an object, which ends with it. -/
def Ends (levels : Nat) (front : Bytes) : Prop :=
  ∃ visits, ∀ position, ∃ last,
    Walk registry .object levels ⟨position, front⟩ visits ⟨last, []⟩

section Loops
variable {readValue : Field → Reader Value} {inner : Reader (List Entry)} {header front : Bytes}

theorem starves_entriesWith (nonempty : front ≠ []) (h : Starves (Reader.field registry) front) :
    Starves (Reader.entriesWith registry readValue (left + 1)) front := by
  intro position
  have filled : front.isEmpty = false := by simp [nonempty]
  rw [Reader.entriesWith, Reader.bind_ok (Reader.get_apply _)]
  simp only [filled]
  exact h.bind position

theorem starves_entriesWith_value (named : Reads (Reader.field registry) header field)
    (opens : field.name ≠ objectEndName) (h : Starves (readValue field) front) :
    Starves (Reader.entriesWith registry readValue (left + 1)) (header ++ front) := by
  intro position
  rw [entriesWith_named readValue (named position front), if_neg opens]
  exact h.bind _

theorem starves_entriesWith_others (named : Reads (Reader.field registry) header field)
    (opens : field.name ≠ objectEndName) {payload : Bytes} {value : Value}
    (read : ∀ position, readValue field ⟨position, payload ++ front⟩ =
      .ok value ⟨position + payload.length, front⟩)
    (h : Starves (Reader.entriesWith registry readValue left) front) :
    Starves (Reader.entriesWith registry readValue (left + 1)) (header ++ (payload ++ front)) := by
  intro position
  rw [entriesWith_named readValue (named position _), if_neg opens, Reader.bind_ok (read _)]
  exact h.bind _

theorem starved_after {α β : Type} {reader : Reader α} {next : α → Reader β} {before after : Cursor}
    {a : α} (read : reader before = .ok a after)
    (h : ∃ e last, next a after = .error e last ∧ Starved e) :
    ∃ e last, (reader >>= next) before = .error e last ∧ Starved e := by
  rw [Reader.bind_ok read]
  exact h

theorem starves_elementsWith_nil (left : Nat) :
    Starves (Reader.elementsWith registry inner left) [] := by
  cases left with
  | zero => exact starves_underrun fun _ => rfl
  | succ left => exact Starves.bind (starves_underrun fun _ => rfl)

end Loops

theorem delimits_of_named {before start : Cursor}
    (named : Reader.field registry before = .ok field start) :
    ∃ header, header ≠ [] ∧ Passes before header start ∧
      Delimits (Reader.field registry) header field ∧
      ∀ rest, registry.Heads (header ++ rest) field rest := by
  obtain ⟨header, passed, delimits⟩ := registry.delimited_field _ _ _ named
  obtain ⟨-, header', passed', nonempty⟩ := heads_of_read named
  obtain rfl := passed.unique passed'
  exact ⟨header, nonempty, passed, delimits, fun rest => (heads_of_read (delimits.reads 0 rest)).1⟩

section Values
variable (lawful : registry.Lawful) (known : registry.Known field)
include lawful known

theorem delimited_valueAt {type : LeafType} (typed : field.wireType? = some (.leaf type)) :
    Delimited (Reader.valueAt registry rounds levels field) := by
  have prefixed := known.variableLength lawful typed
  rw [valueAt_leaf typed, announcement]
  cases lengthened : field.variableLength with
  | true =>
    simp only [if_true, bind_map_left]
    exact .bind LengthPrefix.delimited_read fun length =>
      .bind (Leaf.delimited_read type fun _ => rfl) fun _ => .pure _
  | false =>
    rw [lengthened] at prefixed
    refine .bind (.pure none) fun announced =>
      .bind (Leaf.delimited_read type fun needs => ?_) fun _ => .pure _
    rcases needs with rfl | rfl <;> cases prefixed

end Values

variable (registry) in
/-- What a loop makes of the front of what it took: it ends for want of bytes, but where the front
of an object is an object. -/
def LoopCut (rounds left : Nat) :
    Container → (levels : Nat) → (input front : Bytes) → Prop
  | .object, levels + 1, input, front =>
    Starves (Reader.entriesWith registry (Reader.valueAt registry rounds levels) left) front ∨
      registry.FieldBoundary input front ∧ registry.Ends (levels + 1) front
  | .array, levels + 1, _, front =>
    Starves (Reader.elementsWith registry (Reader.entries registry rounds levels) left) front
  | _, 0, _, _ => False

theorem starves_consumed {α : Type} {reader : Reader α} {front : Bytes} (h : Starves reader front) :
    Starves (Reader.consumed reader) front := by
  intro position
  rw [Reader.consumed, Reader.bind_ok (Reader.get_apply _)]
  exact h.bind position

theorem entries_of_loopCut {input front : Bytes}
    (cut : registry.LoopCut rounds rounds .object levels input front) :
    Starves (Reader.entries registry rounds levels) front ∨
      registry.FieldBoundary input front ∧ registry.Ends levels front := by
  cases levels with
  | zero => exact cut.elim
  | succ levels => exact cut

theorem containerBytes_of_loopCut {kind : Container} {input front : Bytes}
    (cut : registry.LoopCut rounds rounds kind levels input front) :
    Starves (containerBytes registry rounds levels kind) front ∨
      kind = .object ∧ registry.FieldBoundary input front ∧ registry.Ends levels front := by
  cases kind with
  | object =>
    exact (entries_of_loopCut cut).imp (fun starves => (starves_consumed starves).bind)
      fun ends => ⟨rfl, ends⟩
  | array =>
    cases levels with
    | zero => exact cut.elim
    | succ levels => exact .inl (starves_consumed cut).bind

theorem cut_of_entry {readValue : Field → Reader Value} {input header payload others front missing :
      Bytes} (delimits : Delimits (Reader.field registry) header field)
    (opens : field.name ≠ objectEndName) (whole : header ++ (payload ++ others) = front ++ missing)
    (nonempty : front ≠ [])
    (inside : ∀ place tail, front = header ++ place → payload = place ++ tail → tail ≠ [] →
      Starves (readValue field) place ∨
        registry.FieldBoundary input front ∧ registry.Ends levels front)
    (behind : ∀ place, front = header ++ (payload ++ place) → others = place ++ missing →
      (∃ value, ∀ position, readValue field ⟨position, payload ++ place⟩ =
        .ok value ⟨position + payload.length, place⟩) ∧
      (Starves (Reader.entriesWith registry readValue left) place ∨
        registry.FieldBoundary input front ∧ registry.Ends levels front)) :
    Starves (Reader.entriesWith registry readValue (left + 1)) front ∨
      registry.FieldBoundary input front ∧ registry.Ends levels front := by
  obtain ⟨tail, in_header, tail_nonempty⟩ | ⟨place, rfl, rest⟩ := cut_append whole
  · exact .inl (starves_entriesWith nonempty
      (delimits.needsAll front tail in_header tail_nonempty))
  obtain ⟨tail, in_payload, tail_nonempty⟩ | ⟨place, rfl, last⟩ := cut_append rest
  · exact (inside place tail rfl in_payload tail_nonempty).imp_left fun starves =>
      starves_entriesWith_value delimits.reads opens starves
  · obtain ⟨⟨value, read⟩, cut⟩ := behind place rfl last
    exact cut.imp_left fun starves =>
      starves_entriesWith_others delimits.reads opens read starves

theorem ends_nil (levels : Nat) : registry.Ends (levels + 1) [] := ⟨[], fun _ => ⟨_, .exhausted⟩⟩

theorem passes_front {kind : Container} {position last : Nat} {front : Bytes}
    {visits : List (Field × Visited)}
    (walk : Walk registry kind levels ⟨position, front⟩ visits ⟨last, []⟩) :
    Passes ⟨position, front⟩ front ⟨last, []⟩ := by
  obtain ⟨bytes, passed⟩ := walk.passes
  have whole : front = bytes ++ [] := passed.rest
  rw [List.append_nil] at whole
  rwa [← whole] at passed

section Steps
variable {before start middle after : Cursor} {visits : List (Field × Visited)}
  (named : Reader.field registry before = .ok field start) (opens : field.name ≠ objectEndName)
include named opens

theorem walk_of_leaf {type : LeafType} (typed : field.wireType? = some (.leaf type)) {leaf : Leaf}
    {depth : Nat}
    (read : Reader.valueAt registry rounds depth field start = .ok (.leaf leaf) middle)
    (others : Walk registry .object (levels + 1) middle visits after) :
    Walk registry .object (levels + 1) before ((field, .leaf leaf) :: visits) after := by
  rw [valueAt_leaf typed] at read
  obtain ⟨announced, behind, length_read, read⟩ := Reader.bind_eq_ok.mp read
  obtain ⟨_, _, read, same⟩ := Reader.bind_eq_ok.mp read
  cases same
  exact .leaf (opening_eq_ok.mpr ⟨start, named, length_read⟩) opens typed read others

theorem walk_of_container (lawful : registry.Lawful) {kind : Container}
    (typed : field.wireType? = some kind.type) {inside : List (Field × Visited)} {bytes : Bytes}
    (walk : Walk registry kind levels start inside middle) (passed : Passes start bytes middle)
    (others : Walk registry .object (levels + 1) middle visits after) :
    Walk registry .object (levels + 1) before ((field, .container kind bytes inside) :: visits)
      after := by
  have known := (heads_of_read named).1.known
  have unannounced : announcement field start = .ok none start := by
    rw [announcement_container lawful known typed]
    rfl
  exact .container (opening_eq_ok.mpr ⟨start, named, unannounced⟩) opens typed walk passed others

end Steps

section Ends
variable (lawful : registry.Lawful) {front payload place : Bytes}
include lawful

theorem read_of_heads {rest : Bytes} (heads : registry.Heads front field rest) (position : Nat) :
    ∃ here, Reader.field registry ⟨position, front⟩ = .ok field ⟨here, rest⟩ := by
  obtain ⟨header, coded, rfl⟩ := heads.coded
  exact ⟨_, reads_header lawful heads.known.listed coded position rest⟩

theorem ends_leaf {type : LeafType} {leaf : Leaf} {depth : Nat}
    (heads : registry.Heads front field (payload ++ place)) (opens : field.name ≠ objectEndName)
    (typed : field.wireType? = some (.leaf type))
    (read : ∀ position, Reader.valueAt registry rounds depth field ⟨position, payload ++ place⟩ =
      .ok (.leaf leaf) ⟨position + payload.length, place⟩)
    (ends : registry.Ends (levels + 1) place) : registry.Ends (levels + 1) front := by
  obtain ⟨visits, walks⟩ := ends
  refine ⟨(field, .leaf leaf) :: visits, fun position => ?_⟩
  obtain ⟨here, named⟩ := read_of_heads lawful heads position
  obtain ⟨last, walk⟩ := walks (here + payload.length)
  exact ⟨last, walk_of_leaf named opens typed (read here) walk⟩

theorem ends_container {kind : Container} {inside : List (Field × Visited)}
    (heads : registry.Heads front field (payload ++ place)) (opens : field.name ≠ objectEndName)
    (typed : field.wireType? = some kind.type)
    (walk : ∀ position, Walk registry kind levels ⟨position, payload ++ place⟩ inside
      ⟨position + payload.length, place⟩)
    (ends : registry.Ends (levels + 1) place) : registry.Ends (levels + 1) front := by
  obtain ⟨visits, walks⟩ := ends
  refine ⟨(field, .container kind payload inside) :: visits, fun position => ?_⟩
  obtain ⟨here, named⟩ := read_of_heads lawful heads position
  obtain ⟨last, others⟩ := walks (here + payload.length)
  exact ⟨last, walk_of_container named opens lawful typed (walk here) ⟨rfl, rfl⟩ others⟩

theorem ends_inside (heads : registry.Heads front field place)
    (opens : field.name ≠ objectEndName) (typed : field.wireType? = some .object)
    (ends : registry.Ends levels place) : registry.Ends (levels + 1) front := by
  obtain ⟨inside, walks⟩ := ends
  refine ⟨[(field, .container .object place inside)], fun position => ?_⟩
  obtain ⟨here, named⟩ := read_of_heads lawful heads position
  obtain ⟨last, walk⟩ := walks here
  have contains : field.wireType? = some Container.object.type := typed
  exact ⟨last, walk_of_container named opens lawful contains walk (passes_front walk) .exhausted⟩

end Ends

theorem occurrences_of_walk (lawful : registry.Lawful) {kind : Container} {before after : Cursor}
    {visits : List (Field × Visited)} (walk : Walk registry kind levels before visits after) :
    ∃ json, registry.Occurrences kind.type before.rest after.rest json := by
  have enough := Nat.le_refl before.rest.length
  cases kind with
  | object =>
    have read := (entries_iff_walk enough).mpr ⟨visits, walk, rfl⟩
    obtain ⟨-, members, -, occurs, -⟩ := (finds lawful _ levels).1 _ _ _ enough read
    exact ⟨_, occurs⟩
  | array =>
    have read := (elements_iff_walk enough).mpr ⟨visits, walk, rfl⟩
    obtain ⟨-, items, -, occurs⟩ := (finds lawful _ levels).2 _ _ _ enough read
    exact ⟨_, occurs⟩

section Cuts
variable {before start middle after : Cursor} {front missing others : Bytes}

theorem loopCut_object {input : Bytes} (enough : front.length ≤ left)
    (filled : ∀ fewer, left = fewer + 1 → front ≠ [] →
      registry.LoopCut rounds (fewer + 1) .object (levels + 1) input front) :
    registry.LoopCut rounds left .object (levels + 1) input front := by
  by_cases empty : front = []
  · subst empty
    exact .inr ⟨.here _, ends_nil _⟩
  · have positive := List.length_pos_iff.mpr empty
    obtain ⟨fewer, rfl⟩ := Nat.exists_eq_add_one_of_ne_zero (n := left) (by omega)
    exact filled fewer rfl empty

section Entries
variable (lawful : registry.Lawful) (named : Reader.field registry before = .ok field start)
  (opens : field.name ≠ objectEndName) (passed : Passes before (front ++ missing) after)
  (others_passed : Passes middle others after) (filled : front ≠ [])
  (enough : front.length ≤ left + 1)
  (behind : ∀ place, others = place ++ missing → place.length ≤ left →
    registry.LoopCut rounds left .object (levels + 1) middle.rest place)
include lawful named opens passed others_passed filled enough behind

theorem loopCut_leaf {type : LeafType} (typed : field.wireType? = some (.leaf type)) {leaf : Leaf}
    (read : ∀ rounds levels,
      Reader.valueAt registry rounds levels field start = .ok (.leaf leaf) middle) :
    registry.LoopCut rounds (left + 1) .object (levels + 1) before.rest front := by
  obtain ⟨header, header_filled, header_passed, header_delimits, heads⟩ := delimits_of_named named
  have known := (heads_of_read named).1.known
  obtain ⟨payload, payload_passed, delimits⟩ :=
    delimited_valueAt lawful known typed _ _ _ (read rounds levels)
  obtain ⟨leaf', payload', json, -, payload_passed', spelled⟩ :=
    spelledLeaf_of_read lawful known typed (read rounds levels)
  obtain rfl := payload_passed.unique payload_passed'
  have whole := (header_passed.append (payload_passed.append others_passed)).unique passed
  have input : before.rest = header ++ (payload ++ middle.rest) := by
    rw [header_passed.rest, payload_passed.rest]
  refine cut_of_entry header_delimits opens whole filled ?_ ?_
  · intro place tail _ in_payload tail_filled
    exact .inl (delimits.needsAll place tail in_payload tail_filled)
  · rintro place rfl rest
    refine ⟨⟨_, fun position => delimits.reads position place⟩, ?_⟩
    have positive := List.length_pos_iff.mpr header_filled
    simp only [List.length_append] at enough
    refine (behind place rest (by omega)).imp_right fun ⟨boundary, ends⟩ => ⟨?_, ?_⟩
    · rw [input]
      exact .leaf (heads _) (heads _) opens spelled boundary
    · exact ends_leaf lawful (heads _) opens typed (fun position => delimits.reads position place)
        ends

theorem loopCut_container {kind : Container} (typed : field.wireType? = some kind.type)
    {visits : List (Field × Visited)} (walk : Walk registry kind levels start visits middle)
    {payload : Bytes} (payload_passed : Passes start payload middle) (bound : left + 1 ≤ rounds)
    (inside : ∀ place tail, payload = place ++ tail → tail ≠ [] → place.length ≤ rounds →
      registry.LoopCut rounds rounds kind levels start.rest place) :
    registry.LoopCut rounds (left + 1) .object (levels + 1) before.rest front := by
  obtain ⟨header, header_filled, header_passed, header_delimits, heads⟩ := delimits_of_named named
  have known := (heads_of_read named).1.known
  obtain ⟨json, occurs⟩ := occurrences_of_walk lawful walk
  have whole := (header_passed.append (payload_passed.append others_passed)).unique passed
  have input : before.rest = header ++ (payload ++ middle.rest) := by
    rw [header_passed.rest, payload_passed.rest]
  have value_eq : Reader.valueAt registry rounds levels field =
      kind.value <$> containerBytes registry rounds levels kind := by
    rw [valueAt_container typed, announcement_container lawful known typed, pure_bind]
  refine cut_of_entry header_delimits opens whole filled ?_ ?_
  · rintro place tail rfl in_payload tail_filled
    simp only [List.length_append] at enough
    have cut := containerBytes_of_loopCut (inside place tail in_payload tail_filled (by omega))
    obtain starves | ⟨rfl, boundary, ends⟩ := cut
    · rw [value_eq, ← bind_pure_comp]
      exact .inl starves.bind
    · rw [header_passed.rest]
      exact .inr ⟨.inside (heads _) (heads _) opens typed boundary,
        ends_inside lawful (heads _) opens typed ends⟩
  · rintro place rfl rest
    have positive := List.length_pos_iff.mpr header_filled
    simp only [List.length_append] at enough
    have followed : middle.rest = place ++ (missing ++ after.rest) := by
      rw [others_passed.rest, rest, List.append_assoc]
    have again (position : Nat) := walk.isLocal.moved payload_passed position followed
    refine ⟨⟨kind.value payload, fun position => ?_⟩, ?_⟩
    · have room : (payload ++ place).length ≤ rounds := by
        rw [List.length_append]
        omega
      rw [value_eq]
      exact map_ok _ (containerBytes_of_loops
        ((again position).loops rounds room (Nat.le_refl _)) ⟨rfl, rfl⟩)
    refine (behind place rest (by omega)).imp_right fun ⟨boundary, ends⟩ => ⟨?_, ?_⟩
    · rw [input]
      rw [payload_passed.rest] at occurs
      exact .container (heads _) (heads _) opens typed occurs boundary
    · exact ends_container lawful (heads _) opens typed again ends

end Entries

theorem starves_element (named : Reader.field registry before = .ok field start)
    (opens : field.name ≠ arrayEndName) (object : field.isObject = true) {payload : Bytes}
    {visits : List (Field × Visited)} (walk : Walk registry .object levels start visits middle)
    (payload_passed : Passes start payload middle) (others_passed : Passes middle others after)
    (passed : Passes before (front ++ missing) after) (enough : front.length ≤ left)
    (bound : left ≤ rounds)
    (inside : ∀ place tail, payload = place ++ tail → tail ≠ [] → place.length ≤ rounds →
      registry.LoopCut rounds rounds .object levels start.rest place)
    (behind : ∀ fewer place, left = fewer + 1 → others = place ++ missing → place.length ≤ fewer →
      Starves (Reader.elementsWith registry (Reader.entries registry rounds levels) fewer) place) :
    Starves (Reader.elementsWith registry (Reader.entries registry rounds levels) left) front := by
  cases left with
  | zero => exact starves_underrun fun _ => rfl
  | succ left =>
    obtain ⟨header, header_filled, header_passed, header_delimits, -⟩ := delimits_of_named named
    have positive := List.length_pos_iff.mpr header_filled
    have whole := (header_passed.append (payload_passed.append others_passed)).unique passed
    obtain ⟨tail, in_header, tail_filled⟩ | ⟨place, rfl, rest⟩ := cut_append whole
    · exact (header_delimits.needsAll front tail in_header tail_filled).bind
    simp only [List.length_append] at enough
    intro position
    rw [elementsWith_named _ (header_delimits.reads position place), if_neg opens, object]
    obtain ⟨tail, in_payload, tail_filled⟩ | ⟨place, rfl, last⟩ := cut_append rest
    · obtain starves | ⟨-, met, ends⟩ :=
        entries_of_loopCut (inside place tail in_payload tail_filled (by omega))
      · exact (starves_consumed starves).bind _
      -- The element is whole as it stands, but the array has nothing to go on with.
      · obtain ⟨end_position, inner⟩ := ends (position + header.length)
        have room : place.length ≤ rounds := by omega
        have read := (entries_iff_walk room).mpr ⟨met, inner, rfl⟩
        exact starved_after (Reader.consumed_ok read (passes_front inner))
          ((starves_elementsWith_nil left).bind _)
    · rw [List.length_append] at enough
      have followed : middle.rest = place ++ (missing ++ after.rest) := by
        rw [others_passed.rest, last, List.append_assoc]
      have again := walk.isLocal.moved payload_passed (position + header.length) followed
      have room : (payload ++ place).length ≤ rounds := by
        rw [List.length_append]
        omega
      have read := (entries_iff_walk room).mpr ⟨visits, again, rfl⟩
      exact starved_after (Reader.consumed_ok read ⟨rfl, rfl⟩)
        ((behind left place rfl last (by omega)).bind _)

end Cuts

theorem loopCut_of_walk (lawful : registry.Lawful) {kind : Container} {before after : Cursor}
    {visits : List (Field × Visited)} (walk : Walk registry kind levels before visits after)
    {front missing : Bytes} (passed : Passes before (front ++ missing) after)
    (nonempty : missing ≠ []) (enough : front.length ≤ left) (bound : left ≤ rounds) :
    registry.LoopCut rounds left kind levels before.rest front := by
  -- The cut is in the first header, in the value behind it, or in what the walk does next.
  induction walk generalizing front missing left with
  | exhausted =>
    have nothing := passed.unique (.nothing _)
    exact absurd (List.append_eq_nil_iff.mp nothing).2 nonempty
  | objectEnd named ends =>
    obtain ⟨header, -, header_passed, delimits, -⟩ := delimits_of_named named
    have whole := header_passed.unique passed
    refine loopCut_object enough fun fewer _ filled => ?_
    exact .inl (starves_entriesWith filled (delimits.needsAll _ _ whole nonempty))
  | leaf opened opens typed read others ih =>
    obtain ⟨start, named, -, -, value_read⟩ := valueAt_of_opening opened typed read
    obtain ⟨back, back_passed⟩ := others.passes
    refine loopCut_object enough fun fewer rounds_left filled => ?_
    refine loopCut_leaf lawful named opens passed back_passed filled (by omega)
      (fun place rest short => ?_) typed value_read
    rw [rest] at back_passed
    exact ih back_passed nonempty short (by omega)
  | container opened opens typed inside inside_passed others ih_inside ih =>
    obtain ⟨start, named, unannounced⟩ := opening_eq_ok.mp opened
    rw [announcement_container lawful (heads_of_read named).1.known typed] at unannounced
    cases unannounced
    obtain ⟨back, back_passed⟩ := others.passes
    refine loopCut_object enough fun fewer rounds_left filled => ?_
    refine loopCut_container lawful named opens passed back_passed filled (by omega)
      (fun place rest short => ?_) typed inside inside_passed (by omega)
      fun place tail shape tail_filled room => ?_
    · rw [rest] at back_passed
      exact ih back_passed nonempty short (by omega)
    · rw [shape] at inside_passed
      exact ih_inside inside_passed tail_filled room (Nat.le_refl _)
  | arrayEnd named ends =>
    obtain ⟨header, -, header_passed, delimits, -⟩ := delimits_of_named named
    have whole := header_passed.unique passed
    have starves := delimits.needsAll _ _ whole nonempty
    cases left with
    | zero => exact starves_underrun fun _ => rfl
    | succ left => exact starves.bind
  | element named opens object inside inside_passed others ih_inside ih =>
    obtain ⟨back, back_passed⟩ := others.passes
    refine starves_element named opens object inside inside_passed back_passed passed enough bound
      (fun place tail shape tail_filled room => ?_) fun fewer place rounds_left rest short => ?_
    · rw [shape] at inside_passed
      exact ih_inside inside_passed tail_filled room (Nat.le_refl _)
    · rw [rest] at back_passed
      exact ih back_passed nonempty short (by omega)

theorem FieldBoundary.isPrefix {input front : Bytes} (h : registry.FieldBoundary input front) :
    ∃ tail, input = front ++ tail := by
  have behind {input front payload tail : Bytes} {field : Field}
      (heads : registry.Heads input field (payload ++ tail))
      (heads_front : registry.Heads front field payload) : ∃ tail, input = front ++ tail := by
    obtain ⟨header, coded, rfl⟩ := heads.coded
    obtain ⟨header', coded', rfl⟩ := heads_front.coded
    rw [coded] at coded'
    cases coded'
    exact ⟨tail, (List.append_assoc ..).symm⟩
  induction h with
  | here input => exact ⟨input, rfl⟩
  | leaf heads heads_front _ _ _ ih =>
    obtain ⟨tail, rfl⟩ := ih
    rw [← List.append_assoc] at heads
    exact behind heads heads_front
  | container heads heads_front _ _ _ _ ih =>
    obtain ⟨tail, rfl⟩ := ih
    rw [← List.append_assoc] at heads
    exact behind heads heads_front
  | inside heads heads_front _ _ _ ih =>
    obtain ⟨tail, rfl⟩ := ih
    exact behind heads heads_front

section Boundaries
variable (lawful : registry.Lawful) {before after : Cursor} {visits : List (Field × Visited)}
include lawful

theorem first_of_walk {rest : Bytes} (heads : registry.Heads before.rest field rest)
    (opens : field.name ≠ objectEndName)
    (walk : Walk registry .object (levels + 1) before visits after) :
    ∃ start middle others, Reader.field registry before = .ok field start ∧ start.rest = rest ∧
      Walk registry .object (levels + 1) middle others after ∧
      ((∃ type leaf, field.wireType? = some (.leaf type) ∧ ∀ rounds levels,
          Reader.valueAt registry rounds levels field start = .ok (.leaf leaf) middle) ∨
        ∃ kind bytes inside, field.wireType? = some (Container.type kind) ∧
          Walk registry kind levels start inside middle ∧ Passes start bytes middle) := by
  have same {other : Field} {start : Cursor}
      (named : Reader.field registry before = .ok other start) :
      other = field ∧ start.rest = rest :=
    (heads_of_read named).1.unique lawful heads
  cases walk with
  | exhausted => exact heads.ne_nil.elim
  | objectEnd named ends =>
    obtain ⟨rfl, -⟩ := same named
    exact absurd ends opens
  | leaf opened _ typed read others =>
    obtain ⟨start, named, -, -, value_read⟩ := valueAt_of_opening opened typed read
    obtain ⟨rfl, behind⟩ := same named
    exact ⟨start, _, _, named, behind, others, .inl ⟨_, _, typed, value_read⟩⟩
  | container opened _ typed inside passed others =>
    obtain ⟨start, named, unannounced⟩ := opening_eq_ok.mp opened
    rw [announcement_container lawful (heads_of_read named).1.known typed] at unannounced
    cases unannounced
    obtain ⟨rfl, behind⟩ := same named
    exact ⟨_, _, _, named, behind, others, .inr ⟨_, _, _, typed, inside, passed⟩⟩

theorem ends_of_boundary {input front : Bytes} (boundary : registry.FieldBoundary input front)
    (walk : Walk registry .object (levels + 1) before visits after) (starts : before.rest = input) :
    registry.Ends (levels + 1) front := by
  induction boundary generalizing levels before visits after with
  | here input => exact ends_nil levels
  | @leaf input front payload rest place field leaf json heads heads_front opens spelled _ ih =>
    subst starts
    obtain ⟨⟨here, start_rest⟩, middle, others, named, behind, others_walk, value⟩ :=
      first_of_walk lawful heads opens walk
    obtain ⟨type, leaf', typed, read⟩ | ⟨kind, -, -, typed, -⟩ := value
    · have spelled_read := spelled.reads lawful heads.known here rest
      rw [← behind, read] at spelled_read
      injection spelled_read with same_leaf same_cursor
      exact ends_leaf lawful heads_front opens spelled.typed
        (fun position => spelled.reads lawful heads.known position place)
        (ih others_walk (congrArg Cursor.rest same_cursor))
    · rw [spelled.typed] at typed
      cases kind <;> cases typed
  | @container input front payload rest place field type json heads heads_front opens typed occurs
      boundary ih =>
    subst starts
    obtain ⟨start, middle, others, named, behind, others_walk, value⟩ :=
      first_of_walk lawful heads opens walk
    obtain ⟨leaf_type, -, leaf_typed, -⟩ | ⟨kind, bytes, inside, kind_typed, inner, passed⟩ := value
    · rw [leaf_typed] at typed
      cases typed
      exact occurs.not_leaf.elim
    · rw [kind_typed] at typed
      cases typed
      obtain ⟨json', found⟩ := occurrences_of_walk lawful inner
      rw [behind] at found
      obtain ⟨-, rfl⟩ := occurs.unique lawful found
      have same := passed.rest
      rw [behind] at same
      obtain rfl := List.append_cancel_right same
      obtain ⟨tail, followed⟩ := boundary.isPrefix
      exact ends_container lawful heads_front opens kind_typed
        (fun position => inner.isLocal.moved passed position followed) (ih others_walk rfl)
  | @inside input front payload place field heads heads_front opens typed _ ih =>
    subst starts
    obtain ⟨start, middle, others, named, behind, others_walk, value⟩ :=
      first_of_walk lawful heads opens walk
    obtain ⟨leaf_type, -, leaf_typed, -⟩ | ⟨kind, bytes, inside, kind_typed, inner, -⟩ := value
    · rw [leaf_typed] at typed
      cases typed
    · obtain rfl : kind = .object := by
        rw [kind_typed] at typed
        cases kind with
        | object => rfl
        | array => cases typed
      cases levels with
      | zero => cases inner
      | succ levels => exact ends_inside lawful heads_front opens kind_typed (ih inner behind)

end Boundaries

section Decoding
variable {bytes : Bytes}

theorem walk_of_decodeBytes {json : Json} (h : registry.decodeBytes bytes = .ok json) :
    ∃ visits last, Walk registry .object topLevels ⟨0, bytes⟩ visits ⟨last, []⟩ := by
  obtain ⟨entries, object, last, read, -⟩ := decodeBytes_eq_ok.mp h
  obtain ⟨entries_read, -⟩ := Reader.consumed_eq_ok read
  have enough : (Cursor.start bytes).rest.length ≤ bytes.length := Nat.le_refl _
  obtain ⟨visits, walk, -⟩ := (entries_iff_walk enough).mp entries_read
  exact ⟨visits, last, walk⟩

theorem decodeBytes_of_ends (ends : registry.Ends topLevels bytes) :
    ∃ json, registry.decodeBytes bytes = .ok json := by
  obtain ⟨visits, walks⟩ := ends
  obtain ⟨last, walk⟩ := walks 0
  have passed := passes_front walk
  have enough : (⟨0, bytes⟩ : Cursor).rest.length ≤ bytes.length := Nat.le_refl _
  have read := Reader.consumed_ok ((entries_iff_walk enough).mpr ⟨visits, walk, rfl⟩) passed
  obtain ⟨-, json, rendered⟩ := shown_of_walk walk passed
  exact ⟨json, decodeBytes_eq_ok.mpr ⟨_, bytes, last, read,
    ((render_eq_present topLevels).1 bytes).trans rendered⟩⟩

theorem decodeBytes_of_starves
    (starves : Starves (Reader.entries registry bytes.length topLevels) bytes) :
    ∃ offset needed remaining,
      registry.decodeBytes bytes = .error (.underrun offset needed remaining) := by
  obtain ⟨_, after, failed, offset, needed, remaining, rfl⟩ := starves_consumed starves 0
  refine ⟨offset, needed, remaining, ?_⟩
  rw [decodeBytes, Cursor.start, failed]

theorem decoded_of_isOk (h : (registry.decodeBytes bytes).isOk = true) :
    ∃ json, registry.decodeBytes bytes = .ok json := by
  cases decoded : registry.decodeBytes bytes with
  | error e =>
    rw [decoded] at h
    cases h
  | ok json => exact ⟨json, rfl⟩

end Decoding

/-- Bytes that are decoded, less some of their end, are decoded or miss bytes, and nothing else is
wrong with them. They are decoded exactly where the cut is at a field boundary of an object that is
in objects only. -/
theorem decodeBytes_cut (front missing : Bytes) (json : Json)
    (accepted : bundled.decodeBytes (front ++ missing) = .ok json) (cut : missing ≠ []) :
    ((∃ kept, bundled.decodeBytes front = .ok kept) ∨ ∃ offset needed remaining,
      bundled.decodeBytes front = .error (.underrun offset needed remaining)) ∧
    ((∃ kept, bundled.decodeBytes front = .ok kept) ↔
      bundled.FieldBoundary (front ++ missing) front) := by
  obtain ⟨visits, last, walk⟩ := walk_of_decodeBytes accepted
  have outcome := entries_of_loopCut (loopCut_of_walk bundled_lawful walk (passes_front walk) cut
    (Nat.le_refl _) (Nat.le_refl front.length))
  have kept (boundary : bundled.FieldBoundary (front ++ missing) front) :
      ∃ kept, bundled.decodeBytes front = .ok kept :=
    decodeBytes_of_ends (ends_of_boundary bundled_lawful boundary walk rfl)
  obtain starves | ⟨boundary, -⟩ := outcome
  · obtain ⟨offset, needed, remaining, failed⟩ := decodeBytes_of_starves starves
    refine ⟨.inr ⟨offset, needed, remaining, failed⟩, fun ⟨json, read⟩ => ?_, kept⟩
    rw [failed] at read
    cases read
  · exact ⟨.inl (kept boundary), fun _ => boundary, kept⟩

/-- The memos may stand without the flags behind them, but not without the end of their list. -/
theorem decodeBytes_cut_flagsLast :
    (∃ json, bundled.decodeBytes flagsLast = .ok json) ∧
      (∃ kept, bundled.decodeBytes (flagsLast.take 7) = .ok kept) ∧
      bundled.FieldBoundary flagsLast (flagsLast.take 7) ∧
      (∃ offset needed remaining,
        bundled.decodeBytes (flagsLast.take 6) = .error (.underrun offset needed remaining)) ∧
      ¬ bundled.FieldBoundary flagsLast (flagsLast.take 6) := by
  have checked : (bundled.decodeBytes flagsLast).isOk = true ∧
      (bundled.decodeBytes (flagsLast.take 7)).isOk = true ∧
      (bundled.decodeBytes (flagsLast.take 6)).isOk = false := by
    rw [bundled_eq]
    decide +kernel
  obtain ⟨whole, at_end, before_end⟩ := checked
  obtain ⟨json, accepted⟩ := decoded_of_isOk whole
  have kept := decoded_of_isOk at_end
  have refused : ¬ ∃ kept, bundled.decodeBytes (flagsLast.take 6) = .ok kept := by
    rintro ⟨kept, read⟩
    rw [read] at before_end
    cases before_end
  obtain ⟨-, boundary⟩ :=
    decodeBytes_cut (flagsLast.take 7) (flagsLast.drop 7) json accepted (by decide)
  obtain ⟨outcome, inside⟩ :=
    decodeBytes_cut (flagsLast.take 6) (flagsLast.drop 6) json accepted (by decide)
  exact ⟨⟨json, accepted⟩, kept, boundary.mp kept, outcome.resolve_left refused,
    fun bounded => refused (inside.mpr bounded)⟩

end LedgerWire.Registry
