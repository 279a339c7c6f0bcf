import LedgerWire.Proofs.Walks

/-!
A container is rendered by reading its bytes again, and each container in it again from its own
bytes. That succeeds wherever the container was read, and meets the same fields with the same values
in the same order.
-/

namespace LedgerWire.Registry
variable {registry : Registry} {β : Type}

structure Presentation (β : Type) where
  leaf : Field → Leaf → Except Error β
  container : Container → Bytes → List (Field × β) → β

def Presentation.value (made : Presentation β) (inner : Container → Bytes → Except Error β)
    (field : Field) : Value → Except Error β
  | .leaf leaf => made.leaf field leaf
  | .object bytes => inner .object bytes
  | .array bytes => inner .array bytes

variable (registry) in
/-- The rendering of containers, whatever is made of what it meets. -/
def present (made : Presentation β) : (levels : Nat) → Container → Bytes → Except Error β
  | 0, kind, _ => tooDeep kind.type
  | levels + 1, .object, bytes => do
    let entries ← (Reader.entries registry bytes.length (levels + 1)).runOn bytes
    let parts ← entries.mapM fun entry => do
      return (entry.field, ← made.value (present made levels) entry.field entry.value)
    return made.container .object bytes parts
  | levels + 1, .array, bytes => do
    let entries := Reader.entries registry bytes.length levels
    let elements ← (registry.storedElements entries bytes.length).runOn bytes
    let parts ← elements.mapM fun element => do
      return (element.field, ← present made levels .object element.body)
    return made.container .array bytes parts

variable (registry) in
def jsonPresentation : Presentation Json where
  leaf field leaf := registry.render field (.leaf leaf)
  container
    | .object, _, parts =>
      .object (parts.foldl (fun before part => setMember part.1.name part.2 before) [])
    | .array, _, parts => .array (parts.map fun part => .object [(part.1.name, part.2)])

/-- What a rendering meets, kept as it is met. -/
def recording : Presentation Visited where
  leaf _ leaf := .ok (.leaf leaf)
  container := .container

theorem mapM_map_after {α γ ε : Type} (f : α → Except ε β) (g : β → γ) (as : List α) :
    as.mapM (fun a => g <$> f a) = List.map g <$> as.mapM f := by
  induction as with
  | nil => rfl
  | cons a as ih =>
    rw [List.mapM_cons, List.mapM_cons, ih]
    cases f a with
    | error e => rfl
    | ok b => cases as.mapM f <;> rfl

theorem renderWith_eq_value {levels : Nat}
    (object : ∀ bytes, registry.renderObject levels bytes =
      present registry registry.jsonPresentation levels .object bytes)
    (array : ∀ bytes, registry.renderArray levels bytes =
      present registry registry.jsonPresentation levels .array bytes) (field : Field)
    (value : Value) :
    registry.renderWith (registry.renderObject levels) (registry.renderArray levels) field value =
      registry.jsonPresentation.value (present registry registry.jsonPresentation levels) field
        value := by
  cases value with
  | leaf leaf => exact renderWith_leaf ..
  | object bytes => exact (renderWith_container ..).1.trans (object bytes)
  | array bytes => exact (renderWith_container ..).2.trans (array bytes)

/-- Rendering to JSON is rendering with JSON made of what is met. -/
theorem render_eq_present (levels : Nat) :
    (∀ bytes, registry.renderObject levels bytes =
      present registry registry.jsonPresentation levels .object bytes) ∧
    ∀ bytes, registry.renderArray levels bytes =
      present registry registry.jsonPresentation levels .array bytes := by
  induction levels with
  | zero => exact ⟨fun _ => rfl, fun _ => rfl⟩
  | succ levels ih =>
    obtain ⟨object, array⟩ := ih
    constructor
    · intro bytes
      rw [renderObject, present]
      refine bind_congr fun entries => ?_
      have each (entry : Entry) : registry.renderEntry levels entry =
          (fun part : Field × Json => (part.1.name, part.2)) <$> (do
            return (entry.field, ← registry.jsonPresentation.value
              (present registry registry.jsonPresentation levels) entry.field entry.value) :
              Except Error (Field × Json)) := by
        rw [renderEntry, renderWith_eq_value object array]
        simp
      change (entries.mapM (registry.renderEntry levels) >>= _) = _
      rw [funext each, mapM_map_after]
      simp [jsonPresentation, List.foldl_map]
    · intro bytes
      rw [renderArray, present]
      refine bind_congr fun elements => ?_
      have each (element : Element) : (do
          return Json.object [(element.field.name, ← registry.renderObject levels element.body)] :
            Except Error Json) =
          (fun part : Field × Json => .object [(part.1.name, part.2)]) <$> (do
            return (element.field,
              ← present registry registry.jsonPresentation levels .object element.body) :
              Except Error (Field × Json)) := by
        rw [object]
        simp
      rw [funext each, mapM_map_after]
      simp [jsonPresentation]

section Walks
variable {before after : Cursor} {levels : Nat} {visits : List (Field × Visited)} {bytes : Bytes}

theorem Walk.alone {kind : Container} (walk : Walk registry kind levels before visits after)
    (passed : Passes before bytes after) :
    Walk registry kind levels ⟨0, bytes⟩ visits ⟨0 + bytes.length, []⟩ := by
  have again := walk.isLocal.moved passed 0 (List.nil_append after.rest).symm
  rwa [List.append_nil] at again

theorem storedElements_of_elementsWith {inner : Reader (List Entry)} {rounds : Nat}
    {elements : List Element}
    (h : Reader.elementsWith registry inner rounds before = .ok elements after) :
    registry.storedElements inner rounds before = .ok elements after := by
  induction rounds generalizing before elements with
  | zero => cases h
  | succ rounds ih =>
    cases (elementsWith_eq_ok inner).mp h with
    | arrayEnd named ends =>
      rw [storedElements_named named, if_pos ends]
      rfl
    | element named opens _ body_read others_read =>
      rw [storedElements_named named, if_neg opens]
      exact Reader.bind_eq_ok.mpr ⟨_, _, body_read, Reader.bind_eq_ok.mpr
        ⟨_, _, ih others_read, rfl⟩⟩

theorem Walk.entries_again (walk : Walk registry .object levels before visits after)
    (passed : Passes before bytes after) :
    (Reader.entries registry bytes.length levels).runOn bytes = .ok (visits.map entryOf) := by
  have enough : (⟨0, bytes⟩ : Cursor).rest.length ≤ bytes.length := Nat.le_refl _
  exact runOn_eq_ok ((entries_iff_walk enough).mpr ⟨visits, walk.alone passed, rfl⟩)

theorem Walk.elements_again (walk : Walk registry .array (levels + 1) before visits after)
    (passed : Passes before bytes after) :
    (registry.storedElements (Reader.entries registry bytes.length levels) bytes.length).runOn
      bytes = .ok (visits.map elementOf) := by
  have enough : (⟨0, bytes⟩ : Cursor).rest.length ≤ bytes.length := Nat.le_refl _
  have read := (elements_iff_walk enough).mpr ⟨visits, walk.alone passed, rfl⟩
  exact runOn_eq_ok (storedElements_of_elementsWith read)

variable (registry) in
def presentVisit (made : Presentation β) (levels : Nat) : Container → Field × Visited →
    Except Error β
  | .object, visit => made.value (present registry made levels) visit.1 visit.2.value
  | .array, visit => present registry made levels .object visit.2.value.toBytes

structure Presents (made : Presentation β) (matched : Visited → β → Prop) : Prop where
  leaf : ∀ field leaf, leaf.Canonical → ∃ b, made.leaf field leaf = .ok b ∧ matched (.leaf leaf) b
  container : ∀ kind bytes inside parts,
    List.Forall₂ (fun visit part => part.1 = visit.1 ∧ matched visit.2 part.2) inside parts →
    matched (.container kind bytes inside) (made.container kind bytes parts)

section Presents
variable {made : Presentation β} {matched : Visited → β → Prop}

theorem mapM_visits {α : Type} {kind : Container} (entry : Field × Visited → α)
    (make : α → Except Error (Field × β))
    (same : ∀ visit, make (entry visit) = do
      return (visit.1, ← presentVisit registry made levels kind visit))
    (each : ∀ visit ∈ visits, ∃ b, presentVisit registry made levels kind visit = .ok b ∧
      matched visit.2 b) :
    ∃ parts, (visits.map entry).mapM make = .ok parts ∧
      List.Forall₂ (fun visit part => part.1 = visit.1 ∧ matched visit.2 part.2) visits parts := by
  have parted : ∀ visit ∈ visits, ∃ part : Field × β, make (entry visit) = .ok part ∧
      part.1 = visit.1 ∧ matched visit.2 part.2 := by
    intro visit member
    obtain ⟨b, shown, related⟩ := each visit member
    refine ⟨(visit.1, b), ?_, rfl, related⟩
    rw [same, shown]
    rfl
  obtain ⟨parts, matches_all⟩ := exists_forall₂ parted
  refine ⟨parts, ?_, matches_all.imp fun _ _ => And.right⟩
  rw [mapM_eq_ok, List.forall₂_map_left_iff]
  exact matches_all.imp fun _ _ => And.left

theorem present_of_visits {kind : Container} (presents : Presents made matched)
    (walk : Walk registry kind levels before visits after) (passed : Passes before bytes after)
    (each : ∀ visit ∈ visits, ∃ b, presentVisit registry made (levels - 1) kind visit = .ok b ∧
      matched visit.2 b) :
    ∃ b, present registry made levels kind bytes = .ok b ∧
      matched (.container kind bytes visits) b := by
  cases levels with
  | zero => cases walk
  | succ levels =>
    cases kind with
    | object =>
      obtain ⟨parts, shown, related⟩ := mapM_visits entryOf
        (fun entry => do
          return (entry.field, ← made.value (present registry made levels) entry.field entry.value))
        (fun _ => rfl) each
      refine ⟨_, ?_, presents.container .object bytes visits parts related⟩
      rw [present, walk.entries_again passed]
      exact bind_eq_ok.mpr ⟨_, rfl, bind_eq_ok.mpr ⟨_, shown, rfl⟩⟩
    | array =>
      obtain ⟨parts, shown, related⟩ := mapM_visits elementOf
        (fun element => do
          return (element.field, ← present registry made levels .object element.body))
        (fun _ => rfl) each
      refine ⟨_, ?_, presents.container .array bytes visits parts related⟩
      rw [present, walk.elements_again passed]
      exact bind_eq_ok.mpr ⟨_, rfl, bind_eq_ok.mpr ⟨_, shown, rfl⟩⟩

theorem presentVisit_of_walk {kind : Container} (presents : Presents made matched)
    (walk : Walk registry kind levels before visits after) :
    ∀ visit ∈ visits, ∃ b, presentVisit registry made (levels - 1) kind visit = .ok b ∧
      matched visit.2 b := by
  induction walk with
  | exhausted | objectEnd | arrayEnd => exact nofun
  | leaf _ _ _ read _ ih =>
    rw [List.forall_mem_cons]
    exact ⟨presents.leaf _ _ (Leaf.canonical_of_read read).1, ih⟩
  | @container _ _ _ _ _ _ _ kind _ _ _ _ _ _ walk passed _ ih_inside ih =>
    rw [List.forall_mem_cons]
    refine ⟨?_, ih⟩
    have shown := present_of_visits presents walk passed ih_inside
    cases kind with
    | object => exact shown
    | array => exact shown
  | element _ _ _ walk passed _ ih_inside ih =>
    rw [List.forall_mem_cons]
    exact ⟨present_of_visits presents walk passed ih_inside, ih⟩

theorem present_of_walk {kind : Container} (presents : Presents made matched)
    (walk : Walk registry kind levels before visits after) (passed : Passes before bytes after) :
    ∃ b, present registry made levels kind bytes = .ok b ∧
      matched (.container kind bytes visits) b :=
  present_of_visits presents walk passed (presentVisit_of_walk presents walk)

end Presents

theorem presents_recording : Presents recording fun visited recorded => recorded = visited where
  leaf _ leaf _ := ⟨.leaf leaf, rfl, rfl⟩
  container kind bytes inside parts same := by
    have equal : List.Forall₂ (· = ·) inside parts :=
      same.imp fun _ _ both => Prod.ext both.1.symm both.2.symm
    rw [List.forall₂_eq_eq_eq] at equal
    rw [equal]
    rfl

theorem presents_json : Presents registry.jsonPresentation fun _ _ => True where
  leaf field leaf canonical := by
    obtain ⟨json, rendered⟩ : ∃ json, registry.render field (.leaf leaf) = .ok json :=
      exists_render canonical field
    exact ⟨json, rendered, trivial⟩
  container _ _ _ _ _ := trivial

theorem shown_of_walk {kind : Container} (walk : Walk registry kind levels before visits after)
    (passed : Passes before bytes after) :
    present registry recording levels kind bytes = .ok (.container kind bytes visits) ∧
      ∃ json, present registry registry.jsonPresentation levels kind bytes = .ok json := by
  obtain ⟨_, recorded, rfl⟩ := present_of_walk presents_recording walk passed
  obtain ⟨json, rendered, -⟩ := present_of_walk presents_json walk passed
  exact ⟨recorded, json, rendered⟩

end Walks

theorem checked_closedMemos : ∃ memos : Field,
    Reader.consumed (Reader.entries bundled 9 3)
      ⟨3, [0xF9, 0xEA, 0x7D, 0x01, 0xAB, 0xE1, 0xF1, 0xE1, 0x22]⟩ =
        .ok ([⟨memos, .array [0xEA, 0x7D, 0x01, 0xAB, 0xE1, 0xF1]⟩],
          [0xF9, 0xEA, 0x7D, 0x01, 0xAB, 0xE1, 0xF1, 0xE1]) ⟨11, [0x22]⟩ := by
  rw [bundled_eq]
  exact ⟨⟨"Memos", 9, false, true, true, "STArray", 15⟩, by rfl⟩

/-- Wherever an object or an array is read, at any depth and with any registry, what is kept of it
are the bytes that were passed, and those bytes are rendered at the same depth: the rendering meets
the fields that the reader met, with their values, in the same order, down to the leaves. What it
meets is recorded by the rendering itself, with nothing made of it in the place of JSON. -/
theorem rendering_walks_as_read :
    (∀ (registry : Registry) levels bytes,
      registry.renderObject levels bytes =
        present registry registry.jsonPresentation levels .object bytes ∧
      registry.renderArray levels bytes =
        present registry registry.jsonPresentation levels .array bytes) ∧
    (∀ (registry : Registry) rounds levels before after entries body,
      before.rest.length ≤ rounds →
      Reader.consumed (Reader.entries registry rounds levels) before = .ok (entries, body) after →
      Passes before body after ∧ ∃ visits json,
        Walk registry .object levels before visits after ∧ visits.map entryOf = entries ∧
        present registry recording levels .object body = .ok (.container .object body visits) ∧
        registry.renderObject levels body = .ok json) ∧
    (∀ (registry : Registry) rounds levels before after elements body,
      before.rest.length ≤ rounds →
      Reader.consumed (Reader.elements registry rounds levels) before = .ok (elements, body) after →
      Passes before body after ∧ ∃ visits json,
        Walk registry .array levels before visits after ∧ visits.map elementOf = elements ∧
        present registry recording levels .array body = .ok (.container .array body visits) ∧
        registry.renderArray levels body = .ok json) := by
  refine ⟨fun registry levels bytes =>
    ⟨(render_eq_present levels).1 bytes, (render_eq_present levels).2 bytes⟩, ?_, ?_⟩
  · intro registry rounds levels before after entries body enough h
    obtain ⟨read, rfl⟩ := Reader.consumed_eq_ok h
    obtain ⟨visits, walk, same⟩ := (entries_iff_walk enough).mp read
    obtain ⟨bytes, passed⟩ := walk.passes
    rw [passed.consumed]
    obtain ⟨recorded, json, rendered⟩ := shown_of_walk walk passed
    exact ⟨passed, visits, json, walk, same, recorded,
      ((render_eq_present levels).1 bytes).trans rendered⟩
  · intro registry rounds levels before after elements body enough h
    obtain ⟨read, rfl⟩ := Reader.consumed_eq_ok h
    obtain ⟨visits, walk, same⟩ := (elements_iff_walk enough).mp read
    obtain ⟨bytes, passed⟩ := walk.passes
    rw [passed.consumed]
    obtain ⟨recorded, json, rendered⟩ := shown_of_walk walk passed
    exact ⟨passed, visits, json, walk, same, recorded,
      ((render_eq_present levels).2 bytes).trans rendered⟩

theorem rendering_walks_as_read_memos : ∃ (visits : List (Field × Visited)) (json : Json),
    Walk bundled .object 3 ⟨3, [0xF9, 0xEA, 0x7D, 0x01, 0xAB, 0xE1, 0xF1, 0xE1, 0x22]⟩ visits
      ⟨11, [0x22]⟩ ∧ visits.length = 1 ∧
    present bundled recording 3 .object [0xF9, 0xEA, 0x7D, 0x01, 0xAB, 0xE1, 0xF1, 0xE1] =
      .ok (.container .object [0xF9, 0xEA, 0x7D, 0x01, 0xAB, 0xE1, 0xF1, 0xE1] visits) ∧
    bundled.renderObject 3 [0xF9, 0xEA, 0x7D, 0x01, 0xAB, 0xE1, 0xF1, 0xE1] = .ok json := by
  obtain ⟨memos, read⟩ := checked_closedMemos
  obtain ⟨-, objects, -⟩ := rendering_walks_as_read
  obtain ⟨-, visits, json, walk, met, recorded, rendered⟩ :=
    objects bundled 9 3 _ _ _ _ (by decide) read
  have count := congrArg List.length met
  rw [List.length_map] at count
  exact ⟨visits, json, walk, count, recorded, rendered⟩

end LedgerWire.Registry
