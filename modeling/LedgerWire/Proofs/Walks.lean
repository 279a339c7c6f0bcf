import LedgerWire.Proofs.Delimited
import LedgerWire.Proofs.Occurrences

/-!
The walk of the readers through a container, with everything in it down to the leaves: the readers
succeed exactly where there is one. It depends on the bytes of the container only, so that it may be
taken again from those bytes alone.
-/

namespace LedgerWire

/-- The run from one place to another needs nothing behind it: what follows may be cut off anywhere,
and the bytes that it passes may stand anywhere. -/
def Local (run : Cursor → Cursor → Prop) (before after : Cursor) : Prop :=
  ∃ bytes, Passes before bytes after ∧ ∀ position kept tail, after.rest = kept ++ tail →
    run ⟨position, bytes ++ kept⟩ ⟨position + bytes.length, kept⟩

namespace Local
variable {run next : Cursor → Cursor → Prop} {before middle after : Cursor}

theorem mono (h : Local run before after)
    (implies : ∀ here there, run here there → next here there) : Local next before after := by
  obtain ⟨bytes, passed, moved⟩ := h
  exact ⟨bytes, passed, fun position kept tail whole =>
    implies _ _ (moved position kept tail whole)⟩

theorem trans (h : Local run before middle) (then_local : Local next middle after) :
    Local (fun here there => ∃ between, run here between ∧ next between there) before after := by
  obtain ⟨front, front_passed, front_moved⟩ := h
  obtain ⟨back, back_passed, back_moved⟩ := then_local
  refine ⟨front ++ back, front_passed.append back_passed, fun position kept tail whole => ?_⟩
  have behind : middle.rest = back ++ kept ++ tail := by
    rw [back_passed.rest, whole, List.append_assoc]
  refine ⟨⟨position + front.length, back ++ kept⟩, ?_, ?_⟩
  · rw [List.append_assoc]
    exact front_moved position (back ++ kept) tail behind
  · rw [List.length_append, ← Nat.add_assoc]
    exact back_moved _ kept tail whole

theorem moved {bytes : Bytes} (h : Local run before after) (passed : Passes before bytes after)
    (position : Nat) {kept tail : Bytes} (whole : after.rest = kept ++ tail) :
    run ⟨position, bytes ++ kept⟩ ⟨position + bytes.length, kept⟩ := by
  obtain ⟨bytes', passed', moved⟩ := h
  obtain rfl := passed.unique passed'
  exact moved position kept tail whole

theorem passing {bytes : Bytes} (h : Local run before after) (passed : Passes before bytes after) :
    Local (fun here there => run here there ∧ Passes here bytes there) before after :=
  ⟨bytes, passed, fun position _ _ whole => ⟨h.moved passed position whole, rfl, rfl⟩⟩

end Local

section Readers
variable {α : Type} {reader : Reader α} {before after : Cursor} {a : α}

theorem Delimited.read_local (h : Delimited reader) (read : reader before = .ok a after) :
    Local (fun here there => reader here = .ok a there) before after := by
  obtain ⟨bytes, passed, delimits⟩ := h _ _ _ read
  exact ⟨bytes, passed, fun position kept _ _ => delimits.reads position kept⟩

theorem Leaf.read_local {type : LeafType} {announced : Option Nat} {leaf : Leaf}
    (read : Leaf.read type announced before = .ok leaf after) :
    Local (fun here there => Leaf.read type announced here = .ok leaf there) before after := by
  by_cases lengthened : Leaf.NeedsLength type → announced.isSome = true
  · exact (Leaf.delimited_read type lengthened).read_local read
  · obtain ⟨needs, unannounced⟩ := Classical.not_imp.mp lengthened
    obtain rfl : announced = none := by simpa using unannounced
    rw [Leaf.read_unannounced needs] at read
    have ends := Leaf.exhausts needs read
    obtain ⟨bytes, passed, delimits⟩ := Leaf.delimited_read type (fun _ => rfl) _ _ _ read
    have whole := passed.rest
    rw [ends, List.append_nil] at whole
    refine ⟨bytes, passed, fun position kept tail nothing => ?_⟩
    rw [ends] at nothing
    obtain ⟨rfl, -⟩ := List.append_eq_nil_iff.mp nothing.symm
    rw [Leaf.read_unannounced needs, List.append_nil, ← whole]
    have alone := delimits.reads position []
    rwa [List.append_nil, ← whole] at alone

end Readers

theorem Reader.consumed_ok {bytes : Bytes} (read : reader before = .ok a after)
    (passed : Passes before bytes after) :
    Reader.consumed reader before = .ok (a, bytes) after := by
  rw [Reader.consumed, Reader.bind_ok (Reader.get_apply _), Reader.bind_ok read,
    Reader.bind_ok (Reader.get_apply _), passed.consumed]
  rfl

inductive Container
  | object
  | array
deriving DecidableEq, Repr

namespace Container

def type : Container → WireType
  | .object => .object
  | .array => .array

def value : Container → Bytes → Value
  | .object, bytes => .object bytes
  | .array, bytes => .array bytes

end Container

/-- A value that was read, with all the fields in it in the order of the bytes. -/
inductive Visited
  | leaf (value : Leaf)
  | container (kind : Container) (bytes : Bytes) (inside : List (Field × Visited))

def Visited.value : Visited → Value
  | .leaf value => .leaf value
  | .container kind bytes _ => kind.value bytes

def entryOf (visit : Field × Visited) : Entry := ⟨visit.1, visit.2.value⟩

def elementOf (visit : Field × Visited) : Element := ⟨visit.1, visit.2.value.toBytes⟩

namespace Registry

def announcement (field : Field) : Reader (Option Nat) :=
  if field.variableLength then some <$> LengthPrefix.read else pure none

variable (registry : Registry)

def opening : Reader (Field × Option Nat) := do
  let field ← Reader.field registry
  return (field, ← announcement field)

/-- The walk of the readers through the fields of a container, from one place to another, when
`levels` more containers may be opened, itself included. -/
inductive Walk : Container → (levels : Nat) → Cursor → List (Field × Visited) → Cursor → Prop
  | exhausted {levels position : Nat} : Walk .object (levels + 1) ⟨position, []⟩ [] ⟨position, []⟩
  | objectEnd {levels : Nat} {before after : Cursor} {field : Field} :
      Reader.field registry before = .ok field after → field.name = objectEndName →
      Walk .object (levels + 1) before [] after
  | leaf {levels : Nat} {before start middle after : Cursor} {field : Field}
      {announced : Option Nat} {type : LeafType} {leaf : Leaf} {others : List (Field × Visited)} :
      opening registry before = .ok (field, announced) start → field.name ≠ objectEndName →
      field.wireType? = some (.leaf type) → Leaf.read type announced start = .ok leaf middle →
      Walk .object (levels + 1) middle others after →
      Walk .object (levels + 1) before ((field, .leaf leaf) :: others) after
  | container {levels : Nat} {before start middle after : Cursor} {field : Field}
      {announced : Option Nat} {kind : Container} {bytes : Bytes}
      {inside others : List (Field × Visited)} :
      opening registry before = .ok (field, announced) start → field.name ≠ objectEndName →
      field.wireType? = some kind.type → Walk kind levels start inside middle →
      Passes start bytes middle → Walk .object (levels + 1) middle others after →
      Walk .object (levels + 1) before ((field, .container kind bytes inside) :: others) after
  | arrayEnd {levels : Nat} {before after : Cursor} {field : Field} :
      Reader.field registry before = .ok field after → field.name = arrayEndName →
      Walk .array (levels + 1) before [] after
  | element {levels : Nat} {before start middle after : Cursor} {field : Field} {bytes : Bytes}
      {inside others : List (Field × Visited)} :
      Reader.field registry before = .ok field start → field.name ≠ arrayEndName →
      field.isObject = true → Walk .object levels start inside middle →
      Passes start bytes middle → Walk .array (levels + 1) middle others after →
      Walk .array (levels + 1) before ((field, .container .object bytes inside) :: others) after

variable {registry} {field : Field} {before start middle after : Cursor} {levels : Nat}

theorem delimited_announcement (field : Field) : Delimited (announcement field) := by
  unfold announcement
  split
  · exact LengthPrefix.delimited_read.map
  · exact .pure none

theorem delimited_opening : Delimited (opening registry) :=
  .bind registry.delimited_field fun field => .bind (delimited_announcement field) fun _ => .pure _

theorem Walk.isLocal {kind : Container} {visits : List (Field × Visited)}
    (walk : Walk registry kind levels before visits after) :
    Local (fun here there => Walk registry kind levels here visits there) before after := by
  induction walk with
  | exhausted =>
    -- Only here does the walk see the end of the buffer: nothing is behind it that could be cut.
    refine ⟨[], .nothing _, fun position kept tail whole => ?_⟩
    obtain ⟨rfl, -⟩ := List.append_eq_nil_iff.mp whole.symm
    exact .exhausted
  | objectEnd named ends =>
    exact (registry.delimited_field.read_local named).mono fun _ _ named => .objectEnd named ends
  | leaf opened opens typed read _ ih =>
    refine ((delimited_opening.read_local opened).trans
      ((Leaf.read_local read).trans ih)).mono fun _ _ moved => ?_
    obtain ⟨_, opened, _, read, others⟩ := moved
    exact .leaf opened opens typed read others
  | container opened opens typed _ passed _ ih_inside ih =>
    refine ((delimited_opening.read_local opened).trans
      ((ih_inside.passing passed).trans ih)).mono fun _ _ moved => ?_
    obtain ⟨_, opened, _, ⟨inside, passed⟩, others⟩ := moved
    exact .container opened opens typed inside passed others
  | arrayEnd named ends =>
    exact (registry.delimited_field.read_local named).mono fun _ _ named => .arrayEnd named ends
  | element named opens object _ passed _ ih_inside ih =>
    refine ((registry.delimited_field.read_local named).trans
      ((ih_inside.passing passed).trans ih)).mono fun _ _ moved => ?_
    obtain ⟨_, named, _, ⟨inside, passed⟩, others⟩ := moved
    exact .element named opens object inside passed others

theorem opening_eq_ok {announced : Option Nat} :
    opening registry before = .ok (field, announced) start ↔
      ∃ named, Reader.field registry before = .ok field named ∧
        announcement field named = .ok announced start := by
  constructor
  · intro h
    obtain ⟨field', named, field_read, h⟩ := Reader.bind_eq_ok.mp h
    obtain ⟨announced', last, length_read, h⟩ := Reader.bind_eq_ok.mp h
    cases h
    exact ⟨named, field_read, length_read⟩
  · rintro ⟨named, field_read, length_read⟩
    exact Reader.bind_eq_ok.mpr ⟨_, _, field_read, Reader.bind_eq_ok.mpr ⟨_, _, length_read, rfl⟩⟩

variable (registry) in
def containerBytes (rounds levels : Nat) : Container → Reader Bytes
  | .object => do return (← Reader.consumed (Reader.entries registry rounds levels)).2
  | .array => do return (← Reader.consumed (Reader.elements registry rounds levels)).2

theorem valueAt_leaf {type : LeafType} (typed : field.wireType? = some (.leaf type))
    (rounds levels : Nat) : Reader.valueAt registry rounds levels field =
      announcement field >>= fun announced => do return .leaf (← Leaf.read type announced) :=
  valueAt_eq typed rounds levels

theorem valueAt_of_opening {announced : Option Nat} {type : LeafType} {leaf : Leaf}
    (opened : opening registry before = .ok (field, announced) middle)
    (typed : field.wireType? = some (.leaf type))
    (read : Leaf.read type announced middle = .ok leaf after) :
    ∃ start, Reader.field registry before = .ok field start ∧
      ∃ payload, Passes start payload after ∧ ∀ rounds levels,
        Reader.valueAt registry rounds levels field start = .ok (.leaf leaf) after := by
  obtain ⟨start, named, length_read⟩ := opening_eq_ok.mp opened
  obtain ⟨front, length_passed, -⟩ := delimited_announcement _ _ _ _ length_read
  obtain ⟨back, passed, -⟩ := Leaf.read_local read
  refine ⟨start, named, _, length_passed.append passed, fun rounds levels => ?_⟩
  rw [valueAt_leaf typed]
  exact Reader.bind_eq_ok.mpr ⟨_, _, length_read, Reader.bind_eq_ok.mpr ⟨_, _, read, rfl⟩⟩

theorem valueAt_container {kind : Container} (typed : field.wireType? = some kind.type)
    (rounds levels : Nat) : Reader.valueAt registry rounds levels field =
      announcement field >>= fun _ =>
        kind.value <$> containerBytes registry rounds levels kind := by
  rw [valueAt_eq typed]
  cases kind with
  | object => simp [announcement, Container.type, Container.value, containerBytes]
  | array => simp [announcement, Container.type, Container.value, containerBytes]

theorem Walk.passes {kind : Container} {visits : List (Field × Visited)}
    (walk : Walk registry kind levels before visits after) :
    ∃ bytes, Passes before bytes after := by
  obtain ⟨bytes, passed, -⟩ := walk.isLocal
  exact ⟨bytes, passed⟩

theorem announcement_container (lawful : registry.Lawful) (known : registry.Known field)
    {kind : Container} (typed : field.wireType? = some kind.type) :
    announcement field = pure none := by
  have prefixed := known.variableLength lawful typed
  rw [announcement, prefixed]
  cases kind <;> rfl

variable (registry) in
/-- The readers of containers walk through a buffer of so many bytes. -/
structure Walks (rounds levels : Nat) : Prop where
  object : ∀ before after entries, before.rest.length ≤ rounds →
    Reader.entries registry rounds levels before = .ok entries after →
    ∃ visits, Walk registry .object levels before visits after ∧ visits.map entryOf = entries
  array : ∀ before after elements, before.rest.length ≤ rounds →
    Reader.elements registry rounds levels before = .ok elements after →
    ∃ visits, Walk registry .array levels before visits after ∧ visits.map elementOf = elements

section Read
variable {rounds : Nat}

theorem walk_of_containerBytes (walks : registry.Walks rounds levels) {kind : Container}
    {bytes : Bytes} (enough : before.rest.length ≤ rounds)
    (h : containerBytes registry rounds levels kind before = .ok bytes after) :
    ∃ inside, Walk registry kind levels before inside after ∧ Passes before bytes after := by
  have stored {inside : List (Field × Visited)}
      (walk : Walk registry kind levels before inside after)
      (same : bytes = before.rest.take (after.position - before.position)) :
      ∃ inside, Walk registry kind levels before inside after ∧ Passes before bytes after := by
    obtain ⟨bytes', passed⟩ := walk.passes
    rw [same, passed.consumed]
    exact ⟨inside, walk, passed⟩
  cases kind with
  | object =>
    obtain ⟨⟨entries, body⟩, _, read, h⟩ := Reader.bind_eq_ok.mp h
    cases h
    obtain ⟨entries_read, same⟩ := Reader.consumed_eq_ok read
    obtain ⟨inside, walk, -⟩ := walks.object _ _ _ enough entries_read
    exact stored walk same
  | array =>
    obtain ⟨⟨elements, body⟩, _, read, h⟩ := Reader.bind_eq_ok.mp h
    cases h
    obtain ⟨elements_read, same⟩ := Reader.consumed_eq_ok read
    obtain ⟨inside, walk, -⟩ := walks.array _ _ _ enough elements_read
    exact stored walk same

theorem visit_of_valueAt (walks : registry.Walks rounds levels)
    (named : Reader.field registry before = .ok field start) (opens : field.name ≠ objectEndName)
    (enough : start.rest.length ≤ rounds) {value : Value}
    (h : Reader.valueAt registry rounds levels field start = .ok value middle) :
    ∃ visited : Visited, visited.value = value ∧ middle.rest.length ≤ start.rest.length ∧
      ∀ others after, Walk registry .object (levels + 1) middle others after →
        Walk registry .object (levels + 1) before ((field, visited) :: others) after := by
  have container (kind : Container) (typed : field.wireType? = some kind.type) :
      ∃ visited : Visited, visited.value = value ∧ middle.rest.length ≤ start.rest.length ∧
        ∀ others after, Walk registry .object (levels + 1) middle others after →
          Walk registry .object (levels + 1) before ((field, visited) :: others) after := by
    rw [valueAt_container typed] at h
    obtain ⟨announced, behind, length_read, h⟩ := Reader.bind_eq_ok.mp h
    rw [← bind_pure_comp] at h
    obtain ⟨bytes, body_read, rfl⟩ := Reader.bind_pure_eq_ok.mp h
    obtain ⟨front, length_passed, -⟩ := delimited_announcement field _ _ _ length_read
    have shorter := length_passed.length_le
    obtain ⟨inside, walk, passed⟩ := walk_of_containerBytes walks (by omega) body_read
    exact ⟨.container kind bytes inside, rfl, (length_passed.append passed).length_le,
      fun others after => .container (opening_eq_ok.mpr ⟨start, named, length_read⟩) opens typed
        walk passed⟩
  obtain ⟨type, typed, -⟩ := readAs_of_valueAt h
  cases type with
  | leaf type =>
    rw [valueAt_leaf typed] at h
    obtain ⟨announced, behind, length_read, h⟩ := Reader.bind_eq_ok.mp h
    obtain ⟨leaf, read, rfl⟩ := Reader.bind_pure_eq_ok.mp h
    obtain ⟨front, length_passed, -⟩ := delimited_announcement field _ _ _ length_read
    obtain ⟨back, passed, -⟩ := Leaf.read_local read
    exact ⟨.leaf leaf, rfl, (length_passed.append passed).length_le,
      fun others after => .leaf (opening_eq_ok.mpr ⟨start, named, length_read⟩) opens typed read⟩
  | object => exact container .object typed
  | array => exact container .array typed

theorem walk_of_entriesWith (walks : registry.Walks rounds levels) {left : Nat}
    (bound : left ≤ rounds) {entries : List Entry} (enough : before.rest.length ≤ left)
    (h : Reader.entriesWith registry (Reader.valueAt registry rounds levels) left before =
      .ok entries after) :
    ∃ visits, Walk registry .object (levels + 1) before visits after ∧
      visits.map entryOf = entries := by
  induction left generalizing before entries with
  | zero =>
    cases h
    obtain ⟨position, rest⟩ := after
    obtain rfl := List.length_eq_zero_iff.mp (Nat.le_zero.mp enough)
    exact ⟨[], .exhausted, rfl⟩
  | succ left ih =>
    cases (entriesWith_eq_ok _).mp h with
    | exhausted => exact ⟨[], .exhausted, rfl⟩
    | objectEnd named ends => exact ⟨[], .objectEnd named ends, rfl⟩
    | entry named opens value_read others_read =>
      obtain ⟨-, front, field_passed, nonempty⟩ := heads_of_read named
      have fewer := field_passed.length_lt nonempty
      obtain ⟨visited, rfl, shorter, step⟩ :=
        visit_of_valueAt walks named opens (by omega) value_read
      obtain ⟨visits, others_walk, rfl⟩ := ih (by omega) (by omega) others_read
      exact ⟨_, step _ _ others_walk, rfl⟩

theorem walk_of_elementsWith (walks : registry.Walks rounds levels) {left : Nat}
    {elements : List Element} (enough : before.rest.length ≤ rounds)
    (h : Reader.elementsWith registry (Reader.entries registry rounds levels) left before =
      .ok elements after) :
    ∃ visits, Walk registry .array (levels + 1) before visits after ∧
      visits.map elementOf = elements := by
  induction left generalizing before elements with
  | zero => cases h
  | succ left ih =>
    cases (elementsWith_eq_ok _).mp h with
    | arrayEnd named ends => exact ⟨[], .arrayEnd named ends, rfl⟩
    | element named opens object body_read others_read =>
      obtain ⟨-, front, field_passed, -⟩ := heads_of_read named
      have shorter := field_passed.length_le
      obtain ⟨entries_read, rfl⟩ := Reader.consumed_eq_ok body_read
      obtain ⟨inside, walk, -⟩ := walks.object _ _ _ (by omega) entries_read
      obtain ⟨bytes, passed⟩ := walk.passes
      have shorter_body := passed.length_le
      obtain ⟨visits, others_walk, rfl⟩ := ih (by omega) others_read
      refine ⟨_, .element named opens object walk passed others_walk, ?_⟩
      rw [passed.consumed]
      rfl

theorem walks (rounds levels : Nat) : registry.Walks rounds levels := by
  induction levels with
  | zero => exact ⟨nofun, nofun⟩
  | succ levels ih =>
    exact ⟨fun _ _ _ enough h => walk_of_entriesWith ih (Nat.le_refl _) enough h,
      fun _ _ _ enough h => walk_of_elementsWith ih enough h⟩

variable (registry) in
/-- What is left of a reader's loop over the fields of a container takes them as they are
visited. -/
def Loops (rounds left : Nat) :
    Container → (levels : Nat) → Cursor → List (Field × Visited) → Cursor → Prop
  | .object, levels + 1, before, visits, after =>
    Reader.entriesWith registry (Reader.valueAt registry rounds levels) left before =
      .ok (visits.map entryOf) after
  | .array, levels + 1, before, visits, after =>
    Reader.elementsWith registry (Reader.entries registry rounds levels) left before =
      .ok (visits.map elementOf) after
  | _, 0, _, _, _ => False

theorem containerBytes_of_loops {kind : Container} {inside : List (Field × Visited)} {bytes : Bytes}
    (loops : registry.Loops rounds rounds kind levels before inside after)
    (passed : Passes before bytes after) :
    containerBytes registry rounds levels kind before = .ok bytes after := by
  cases levels with
  | zero => cases kind <;> exact loops.elim
  | succ levels =>
    cases kind with
    | object =>
      have read : Reader.entries registry rounds (levels + 1) before = .ok _ after := loops
      exact Reader.bind_eq_ok.mpr ⟨_, _, Reader.consumed_ok read passed, rfl⟩
    | array =>
      have read : Reader.elements registry rounds (levels + 1) before = .ok _ after := loops
      exact Reader.bind_eq_ok.mpr ⟨_, _, Reader.consumed_ok read passed, rfl⟩

theorem rounds_of_named (named : Reader.field registry before = .ok field start) {left : Nat}
    (enough : before.rest.length ≤ left) :
    ∃ fewer, left = fewer + 1 ∧ start.rest.length ≤ fewer := by
  obtain ⟨-, bytes, passed, nonempty⟩ := heads_of_read named
  have fewer := passed.length_lt nonempty
  exact ⟨left - 1, by omega, by omega⟩

/-- The readers take a container as it is walked through. -/
theorem Walk.loops {kind : Container} {visits : List (Field × Visited)}
    (walk : Walk registry kind levels before visits after) (left : Nat)
    (enough : before.rest.length ≤ left) (bound : left ≤ rounds) :
    registry.Loops rounds left kind levels before visits after := by
  induction walk generalizing left with
  | exhausted => exact entriesWith_empty _ left _
  | objectEnd named ends =>
    obtain ⟨left, rfl, -⟩ := rounds_of_named named enough
    exact (entriesWith_eq_ok _).mpr (.objectEnd named ends)
  | leaf opened opens typed read _ ih =>
    obtain ⟨start, named, payload, passed, value_read⟩ := valueAt_of_opening opened typed read
    obtain ⟨left, rfl, fewer⟩ := rounds_of_named named enough
    have shorter := passed.length_le
    have others := ih left (by omega) (by omega)
    exact (entriesWith_eq_ok _).mpr (.entry named opens (value_read _ _) others)
  | container opened opens typed _ passed _ ih_inside ih =>
    obtain ⟨here, named, length_read⟩ := opening_eq_ok.mp opened
    obtain ⟨left, rfl, fewer⟩ := rounds_of_named named enough
    obtain ⟨front, length_passed, -⟩ := delimited_announcement _ _ _ _ length_read
    have shorter := length_passed.length_le
    have shorter_inside := passed.length_le
    have body := containerBytes_of_loops (ih_inside rounds (by omega) (Nat.le_refl _)) passed
    have others := ih left (by omega) (by omega)
    refine (entriesWith_eq_ok _).mpr (.entry named opens ?_ others)
    rw [valueAt_container typed]
    exact Reader.bind_eq_ok.mpr ⟨_, _, length_read, map_ok _ body⟩
  | arrayEnd named ends =>
    obtain ⟨left, rfl, -⟩ := rounds_of_named named enough
    exact (elementsWith_eq_ok _).mpr (.arrayEnd named ends)
  | element named opens object _ passed _ ih_inside ih =>
    obtain ⟨left, rfl, fewer⟩ := rounds_of_named named enough
    have shorter_inside := passed.length_le
    have body := containerBytes_of_loops (ih_inside rounds (by omega) (Nat.le_refl _)) passed
    obtain ⟨⟨entries, bytes⟩, _, read, same⟩ := Reader.bind_eq_ok.mp body
    cases same
    have others := ih left (by omega) (by omega)
    exact (elementsWith_eq_ok _).mpr (.element named opens object read others)

/-- A container is read exactly where it is walked through. -/
theorem entries_iff_walk (enough : before.rest.length ≤ rounds) {entries : List Entry} :
    Reader.entries registry rounds levels before = .ok entries after ↔
      ∃ visits, Walk registry .object levels before visits after ∧
        visits.map entryOf = entries := by
  refine ⟨(walks rounds levels).object _ _ _ enough, ?_⟩
  rintro ⟨visits, walk, rfl⟩
  have loops := walk.loops rounds enough (Nat.le_refl _)
  cases levels with
  | zero => exact loops.elim
  | succ levels => exact loops

theorem elements_iff_walk (enough : before.rest.length ≤ rounds) {elements : List Element} :
    Reader.elements registry rounds levels before = .ok elements after ↔
      ∃ visits, Walk registry .array levels before visits after ∧
        visits.map elementOf = elements := by
  refine ⟨(walks rounds levels).array _ _ _ enough, ?_⟩
  rintro ⟨visits, walk, rfl⟩
  have loops := walk.loops rounds enough (Nat.le_refl _)
  cases levels with
  | zero => exact loops.elim
  | succ levels => exact loops

end Read

end Registry
end LedgerWire
