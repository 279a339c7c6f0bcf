import Mathlib.Data.Option.Basic
import LedgerWire.Proofs.Expansion
import LedgerWire.Codec

/-!
The bytes of an object, member by member: the tagged addresses are expanded, the serialized members
are put in wire order, and the bytes of each follow one another. Nothing here looks at the bytes
that are kept beside a value while it is built.
-/

namespace LedgerWire

namespace Writer

/-- The writer appends the bytes of a result, or fails as the result does. -/
def Appends (writer : Writer Unit) : Except Error Bytes → Prop
  | .ok bytes => ∀ before, writer before = .ok () (before ++ bytes)
  | .error e => ∀ before, ∃ after, writer before = .error e after

theorem appends_put (bytes : Bytes) : Appends (put bytes) (.ok bytes) := fun _ => rfl

theorem appends_ofExcept {α : Type} {result : Except Error α} {next : α → Writer Unit}
    {write : α → Except Error Bytes} (h : ∀ a, Appends (next a) (write a)) :
    Appends (ofExcept result >>= next) (result >>= write) := by
  cases result with
  | error e => exact fun before => ⟨before, rfl⟩
  | ok a => exact h a

theorem appends_bind {first second : Writer Unit} {r s : Except Error Bytes} (hr : Appends first r)
    (hs : Appends second s) :
    Appends (first >>= fun _ => second) (do return (← r) ++ (← s)) := by
  cases r with
  | error e =>
    intro before
    obtain ⟨after, failed⟩ := hr before
    exact ⟨after, by simp [bind, EStateM.bind, failed]⟩
  | ok front =>
    cases s with
    | error e =>
      intro before
      obtain ⟨after, failed⟩ := hs (before ++ front)
      exact ⟨after, by simp [bind, EStateM.bind, hr before, failed]⟩
    | ok back =>
      intro before
      simp [bind, EStateM.bind, hr before, hs (before ++ front)]

theorem appends_forM {α : Type} {write : α → Writer Unit} {bytes : α → Except Error Bytes}
    (h : ∀ a, Appends (write a) (bytes a)) (as : List α) :
    Appends (forM as write) (do return (← as.mapM bytes).flatten) := by
  induction as with
  | nil =>
    intro before
    exact congrArg (EStateM.Result.ok ()) (List.append_nil before).symm
  | cons a as ih =>
    have step := appends_bind (h a) ih
    rw [List.mapM_cons]
    cases head : bytes a with
    | error e =>
      rw [head] at step
      exact step
    | ok front =>
      rw [head] at step
      cases tail : as.mapM bytes with
      | error e =>
        rw [tail] at step
        exact step
      | ok back =>
        rw [tail] at step
        exact step

theorem runFresh_eq {writer : Writer Unit} {result : Except Error Bytes}
    (h : Appends writer result) : runFresh writer = result := by
  cases result with
  | error e =>
    obtain ⟨after, failed⟩ := h []
    simp [runFresh, failed]
  | ok bytes => simp [runFresh, h []]

def fieldBytes (field : Field) (value : Bytes) (omitPayload : Bool) : Except Error Bytes := do
  let header ← field.header
  if field.variableLength then
    let payload := if omitPayload then [] else value
    return header.encode ++ ((← LengthPrefix.encode payload.length) ++ payload)
  else return header.encode ++ value

theorem appends_field (field : Field) (value : Bytes) (omitPayload : Bool) :
    Appends (Writer.field field value omitPayload) (fieldBytes field value omitPayload) := by
  apply appends_ofExcept
  intro header
  split
  · generalize (if omitPayload then [] else value) = payload
    have prefixed : Appends (lengthEncoded payload)
        (do return (← LengthPrefix.encode payload.length) ++ payload) :=
      appends_ofExcept fun front => appends_bind (appends_put front) (appends_put payload)
    have whole := appends_bind (appends_put header.encode) prefixed
    dsimp only
    cases front : LengthPrefix.encode payload.length with
    | error e =>
      rw [front] at whole
      exact whole
    | ok front =>
      rw [front] at whole
      exact whole
  · exact appends_bind (appends_put header.encode) (appends_put value)

end Writer

theorem lookup_map {α β : Type} (f : α → β) (name : String) (members : List (String × α)) :
    (members.map fun member => (member.1, f member.2)).lookup name =
      (members.lookup name).map f := by
  induction members with
  | nil => rfl
  | cons first rest ih =>
    obtain ⟨other, value⟩ := first
    by_cases same : name = other
    · simp [same]
    · simp [List.lookup_cons, beq_eq_false_iff_ne.mpr same, ih]

theorem setMember_map {α β : Type} (f : α → β) (name : String) (value : α)
    (members : List (String × α)) :
    setMember name (f value) (members.map fun member => (member.1, f member.2)) =
      (setMember name value members).map fun member => (member.1, f member.2) := by
  induction members with
  | nil => rfl
  | cons first rest ih =>
    obtain ⟨other, old⟩ := first
    by_cases same : other = name
    · simp [setMember, same]
    · simp [setMember, same, ih]

namespace Registry
variable (registry : Registry)

theorem packMembers_eq_map (members : List (String × Json)) :
    registry.packMembers members =
      members.map fun member => (member.1, registry.pack member.2) := by
  induction members with
  | nil => rfl
  | cons first rest ih => simp [packMembers, ih]

def membersOf? : Json → Option (List (String × Json))
  | .object members => some members
  | _ => none

theorem packElements_eq_map (items : List Json) :
    registry.packElements items =
      items.map fun item => (membersOf? item).map registry.packMembers := by
  induction items with
  | nil => rfl
  | cons first rest ih => cases first <;> simp [packElements, membersOf?, ih]

@[simp] theorem pack_json (json : Json) : (registry.pack json).json = json := by
  cases json <;> rfl

theorem pack_of_isAtom {json : Json} (h : json.IsAtom) : registry.pack json = Item.plain json := by
  rcases h with ⟨text, rfl⟩ | ⟨number, rfl⟩ <;> rfl

theorem foldl_setMember_packMembers {edits : List (String × Json)}
    (atoms : ∀ edit ∈ edits, edit.2.IsAtom) (members : List (String × Json)) :
    edits.foldl (fun all (name, json) => setMember name (Item.plain json) all)
        (registry.packMembers members) =
      registry.packMembers
        (edits.foldl (fun all edit => setMember edit.1 edit.2 all) members) := by
  induction edits generalizing members with
  | nil => rfl
  | cons edit edits ih =>
    obtain ⟨name, json⟩ := edit
    have plain := registry.pack_of_isAtom (atoms (name, json) List.mem_cons_self)
    rw [List.foldl_cons, List.foldl_cons, ← ih (fun other member =>
      atoms other (List.mem_cons_of_mem _ member))]
    simp only [← plain, packMembers_eq_map, setMember_map]

def wireField? (signingOnly : Bool) (name : String) : Option Field :=
  (registry.field? name).filter fun field => field.serialized && (!signingOnly || field.signing)

def wireMembers (signingOnly : Bool) (members : List (String × Json)) : List (Field × Json) :=
  (members.filterMap fun member =>
    (registry.wireField? signingOnly member.1).map fun field => (field, member.2)).mergeSort
      fun a b => a.1.ordinal ≤ b.1.ordinal

/-- Whether the account among the members is written without its bytes. -/
def emptiesAccount (members : List (String × Json)) : Bool :=
  (members.lookup "TransactionType").bind Json.string? == some emptyAccountType

def memberBytes (emptyAccount : Bool) (field : Field) (json : Json) : Except Error Bytes := do
  let value ← registry.valueOf field json
  let written ← Writer.fieldBytes field value.toBytes (emptyAccount && field.name == "Account")
  return written ++ (if field.isObject then [objectEnd] else [])

theorem wireFields_packMembers (signingOnly : Bool) (members : List (String × Json)) :
    registry.wireFields signingOnly (registry.packMembers members) =
      (registry.wireMembers signingOnly members).map fun member =>
        (member.1, registry.pack member.2) := by
  rw [wireFields, wireMembers, packMembers_eq_map, List.filterMap_map,
    List.map_mergeSort (s := fun a b : Field × Item => decide (a.1.ordinal ≤ b.1.ordinal))
      fun _ _ _ _ => rfl, List.map_filterMap]
  congr 2
  funext member
  simp only [Function.comp, wireField?]
  cases registry.field? member.1 with
  | none => rfl
  | some field =>
    by_cases counts : (field.serialized && (!signingOnly || field.signing)) = true
    · simp only [Option.filter, guard, bind, Option.bind, counts, if_true]
      rfl
    · simp only [Option.filter, guard, bind, Option.bind, counts]
      rfl

theorem appends_writeMember (emptyAccount : Bool) (field : Field) (json : Json) :
    Writer.Appends (registry.writeMember emptyAccount field (registry.pack json))
      (registry.memberBytes emptyAccount field json) := by
  apply Writer.appends_ofExcept
  intro value
  have written := Writer.appends_field field value.toBytes (emptyAccount && field.name == "Account")
  split
  · exact Writer.appends_bind written (Writer.appends_put [objectEnd])
  · have nothing : Writer.Appends (pure ()) (.ok []) := fun before => by
      rw [List.append_nil]
      rfl
    exact Writer.appends_bind written nothing

theorem map_json_packMembers (members : List (String × Json)) :
    (registry.packMembers members).map (fun (name, item) => (name, item.json)) = members := by
  rw [packMembers_eq_map, List.map_map]
  exact (List.map_congr_left fun _ _ => by simp).trans (List.map_id _)

/-- The bytes of an object are those of its expanded members in wire order. -/
theorem fieldBytes_object (signingOnly : Bool) (members : List (String × Json)) :
    registry.fieldBytes signingOnly (.object members) = do
      let expanded ← expandAddresses members
      return (← (registry.wireMembers signingOnly expanded).mapM fun member =>
        registry.memberBytes (emptiesAccount expanded) member.1 member.2).flatten := by
  rw [fieldBytes, objectBytes, expandAddresses, map_json_packMembers, bind_assoc]
  cases expansion : expansionEdits members with
  | error e => rfl
  | ok edits =>
    have packed := registry.foldl_setMember_packMembers (isAtom_of_expansionEdits expansion) members
    generalize whole : edits.foldl (fun all edit => setMember edit.1 edit.2 all) members = expanded
    have type : ((registry.packMembers expanded).lookup "TransactionType").bind
        (fun item => item.json.string?) =
          (expanded.lookup "TransactionType").bind Json.string? := by
      rw [packMembers_eq_map, lookup_map registry.pack]
      cases expanded.lookup "TransactionType" <;> simp
    change Writer.runFresh _ = (List.mapM _ _ >>= _)
    simp only [packed, whole, type]
    rw [wireFields_packMembers, ← emptiesAccount]
    apply Writer.runFresh_eq
    rw [List.forM_eq_forM, List.forM_map]
    refine Writer.appends_forM ?_ _
    exact fun member => registry.appends_writeMember _ member.1 member.2

theorem fieldBytes_eq_ok {signingOnly : Bool} {json : Json} {bytes : Bytes} :
    registry.fieldBytes signingOnly json = .ok bytes ↔
      ∃ members expanded parts, json = .object members ∧ expandAddresses members = .ok expanded ∧
        List.Forall₂ (fun member part =>
            registry.memberBytes (emptiesAccount expanded) member.1 member.2 = .ok part)
          (registry.wireMembers signingOnly expanded) parts ∧
        bytes = parts.flatten := by
  cases json with
  | object members =>
    rw [fieldBytes_object]
    simp only [bind_eq_ok, mapM_eq_ok, Json.object.injEq]
    constructor
    · rintro ⟨expanded, expansion, parts, each, made⟩
      exact ⟨members, expanded, parts, rfl, expansion, each, (Except.ok.inj made).symm⟩
    · rintro ⟨_, expanded, parts, rfl, expansion, each, rfl⟩
      exact ⟨expanded, expansion, parts, each, rfl⟩
  | _ => exact ⟨nofun, nofun⟩

theorem objectBody_pack (json : Json) :
    (registry.pack json).objectBody = registry.fieldBytes false json := by
  cases json <;> rfl

def itemBytes (json : Json) : Except Error Bytes :=
  registry.elementBytes ((membersOf? json).map registry.packMembers)

theorem itemBytes_eq_ok {json : Json} {bytes : Bytes} :
    registry.itemBytes json = .ok bytes ↔
      ∃ name body field header inner, json = .object [(name, body)] ∧ name ≠ objectEndName ∧
        registry.field name = .ok field ∧ field.isObject = true ∧ field.header = .ok header ∧
        registry.fieldBytes false body = .ok inner ∧
        bytes = header.encode ++ inner ++ [objectEnd] := by
  constructor
  · intro h
    rcases json with _ | _ | _ | _ | _ | _ | ⟨⟨name, body⟩, _ | ⟨second, rest⟩⟩
    case object.cons.nil =>
      change registry.elementBytes (some [(name, registry.pack body)]) = .ok bytes at h
      simp only [elementBytes] at h
      split at h
      · cases h
      rename_i unmarked
      obtain ⟨field, found, h⟩ := bind_eq_ok.mp h
      split at h
      · cases h
      rename_i object
      obtain ⟨header, coded, h⟩ := bind_eq_ok.mp h
      obtain ⟨inner, made, h⟩ := bind_eq_ok.mp h
      rw [objectBody_pack] at made
      exact ⟨name, body, field, header, inner, rfl, unmarked, found, by simpa using object, coded,
        made, (Except.ok.inj h).symm⟩
    all_goals cases h
  · rintro ⟨name, body, field, header, inner, rfl, unmarked, found, object, coded, made, rfl⟩
    change registry.elementBytes (some [(name, registry.pack body)]) = _
    simp only [elementBytes, if_neg unmarked, objectBody_pack]
    refine bind_eq_ok.mpr ⟨field, found, ?_⟩
    rw [if_neg (by simp [object])]
    exact bind_eq_ok.mpr ⟨header, coded, bind_eq_ok.mpr ⟨inner, made, rfl⟩⟩

theorem arrayBody_pack (items : List Json) :
    (registry.pack (.array items)).arrayBody = do
      return (← items.mapM registry.itemBytes).flatten ++ [arrayEnd] := by
  change registry.arrayBytes (registry.packElements items) = _
  rw [arrayBytes, packElements_eq_map, List.mapM_map]
  rfl

def leafOf (field : Field) (type : LeafType) (json : Json) : Except Error Leaf :=
  match Enumeration.ofName? field.name, json with
  | some enumeration, .string name => do
    Leaf.ofJson type (.number (.integer (← registry.codeOf enumeration name).toInt))
  | _, json =>
    if type = .unsigned .eight ∧ decimalFields.contains field.name then
      (Unsigned.ofDecimalJson json).map .unsigned
    else Leaf.ofJson type json

variable {registry}

theorem wireType_eq_ok {field : Field} {type : WireType} :
    field.wireType = .ok type ↔ field.wireType? = some type := by
  unfold Field.wireType
  cases field.wireType? <;> simp

/-- Whether a name stands for the code of an enumeration in a field. -/
def NamesCode (field : Field) (json : Json) : Prop :=
  ∃ enumeration name, Enumeration.ofName? field.name = some enumeration ∧ json = .string name

theorem toFieldValue_named {field : Field} {type : WireType} {enumeration : Enumeration}
    (typed : field.wireType? = some type)
    (named : Enumeration.ofName? field.name = some enumeration)
    {item : Item} {name : String} (text : item.json = .string name) :
    item.toFieldValue registry field = (registry.codeOf enumeration name >>= fun code =>
      (Item.plain (.number (.integer code.toInt))).toValue type) := by
  simp only [Item.toFieldValue, wireType_eq_ok.mpr typed, named, text]
  rfl

theorem toFieldValue_unnamed {field : Field} {type : WireType} {item : Item}
    (typed : field.wireType? = some type) (unnamed : ¬ NamesCode field item.json) :
    item.toFieldValue registry field =
      if type = .leaf (.unsigned .eight) ∧ decimalFields.contains field.name then
        (Unsigned.ofDecimalJson item.json).map fun u => .leaf (.unsigned u)
      else item.toValue type := by
  simp only [Item.toFieldValue, wireType_eq_ok.mpr typed]
  change (match Enumeration.ofName? field.name, item.json with
    | some enumeration, .string name => _
    | _, json => _) = _
  split
  · rename_i enumeration name named text
    exact absurd ⟨enumeration, name, named, text⟩ unnamed
  · rfl

theorem leafOf_unnamed {field : Field} {type : LeafType} {json : Json}
    (unnamed : ¬ NamesCode field json) :
    registry.leafOf field type json =
      if type = .unsigned .eight ∧ decimalFields.contains field.name then
        (Unsigned.ofDecimalJson json).map .unsigned
      else Leaf.ofJson type json := by
  rw [leafOf]
  exact fun enumeration name named text => unnamed ⟨enumeration, name, named, text⟩

theorem valueOf_leaf {field : Field} {type : LeafType} (typed : field.wireType? = some (.leaf type))
    (json : Json) : registry.valueOf field json = (registry.leafOf field type json).map .leaf := by
  by_cases names : NamesCode field json
  · obtain ⟨enumeration, name, named, rfl⟩ := names
    rw [valueOf, toFieldValue_named typed named (pack_json ..)]
    simp only [leafOf, named]
    cases registry.codeOf enumeration name <;> rfl
  · have unnamed : ¬ NamesCode field (registry.pack json).json := by rwa [pack_json]
    rw [valueOf, toFieldValue_unnamed typed unnamed, pack_json, leafOf_unnamed names]
    simp only [WireType.leaf.injEq]
    by_cases decimal : type = .unsigned .eight ∧ decimalFields.contains field.name
    · rw [if_pos decimal, if_pos decimal]
      cases Unsigned.ofDecimalJson json <;> rfl
    · rw [if_neg decimal, if_neg decimal, Item.toValue, pack_json]

theorem toFieldValue_container {field : Field} {type : WireType}
    (typed : field.wireType? = some type) (container : ∀ leaf, type ≠ .leaf leaf) {item : Item}
    {value : Value} :
    item.toFieldValue registry field = .ok value ↔ item.toValue type = .ok value := by
  by_cases names : NamesCode field item.json
  · obtain ⟨enumeration, name, named, text⟩ := names
    have refused : ∀ {item : Item}, (∀ members, item.json ≠ .object members) →
        (∀ items, item.json ≠ .array items) → item.toValue type ≠ .ok value := by
      intro item no_members no_items
      cases type with
      | leaf leaf => exact absurd rfl (container leaf)
      | object =>
        rw [Item.toValue, Item.objectBody]
        split
        · rename_i members object
          exact absurd object (no_members members)
        · exact nofun
      | array =>
        rw [Item.toValue, Item.arrayBody]
        split
        · rename_i items array
          exact absurd array (no_items items)
        · exact nofun
    rw [toFieldValue_named typed named text]
    constructor
    · intro made
      obtain ⟨code, -, made⟩ := bind_eq_ok.mp made
      exact absurd made (refused (by simp [Item.plain]) (by simp [Item.plain]))
    · exact fun made => absurd made (refused (by simp [text]) (by simp [text]))
  · rw [toFieldValue_unnamed typed names, if_neg fun h => container _ h.1]

theorem valueOf_object_eq_ok {field : Field} (typed : field.wireType? = some .object) {json : Json}
    {value : Value} : registry.valueOf field json = .ok value ↔
      ∃ inner, registry.fieldBytes false json = .ok inner ∧ value = .object inner := by
  rw [valueOf, toFieldValue_container typed nofun, Item.toValue, objectBody_pack, map_eq_ok]
  simp only [eq_comm]

theorem valueOf_array_eq_ok {field : Field} (typed : field.wireType? = some .array) {json : Json}
    {value : Value} : registry.valueOf field json = .ok value ↔
      ∃ items parts, json = .array items ∧
        List.Forall₂ (fun item part => registry.itemBytes item = .ok part) items parts ∧
        value = .array (parts.flatten ++ [arrayEnd]) := by
  rw [valueOf, toFieldValue_container typed nofun, Item.toValue, map_eq_ok]
  cases json with
  | array items =>
    simp only [arrayBody_pack, bind_eq_ok, mapM_eq_ok, Json.array.injEq]
    constructor
    · rintro ⟨_, ⟨parts, each, made⟩, rfl⟩
      cases made
      exact ⟨items, parts, rfl, each, rfl⟩
    · rintro ⟨_, parts, rfl, each, rfl⟩
      exact ⟨_, ⟨parts, each, rfl⟩, rfl⟩
  | _ =>
    constructor
    · rintro ⟨_, made, -⟩
      cases made
    · rintro ⟨_, _, made, -⟩
      cases made

end Registry
end LedgerWire
