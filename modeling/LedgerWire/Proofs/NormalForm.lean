import LedgerWire.Proofs.Levels
import LedgerWire.Value.Render

/-!
The normal form of an object: the serialized members in wire order, the tagged addresses expanded
and every value spelled the way it is rendered.
-/

namespace LedgerWire

/-- The objects that a value holds as a container: itself, or the bodies of its elements. -/
inductive Json.Body : Json → List (String × Json) → Prop
  | object (inner : List (String × Json)) : Body (.object inner) inner
  | element {items : List Json} {name : String} {inner : List (String × Json)} :
      .object [(name, .object inner)] ∈ items → Body (.array items) inner

theorem Json.sizeOf_lt_of_body {json : Json} {inner : List (String × Json)}
    (h : json.Body inner) : sizeOf inner < sizeOf json := by
  cases h with
  | object => simp
  | element item =>
    have inside := List.sizeOf_lt_of_mem item
    simp at inside ⊢
    omega

theorem Json.not_isAtom_of_body {json : Json} {inner : List (String × Json)}
    (h : json.Body inner) : ¬ json.IsAtom := by
  cases h with
  | object => exact Registry.not_isAtom_object inner
  | element => exact Registry.not_isAtom_array _

namespace Registry
variable (registry : Registry)

/-- A value without fields in it, as it is rendered, or the account of zeros. -/
def normalLeaf (emptied : Bool) (field : Field) (json : Json) : Except Error Json := do
  if emptied && field.name == "Account" then return AccountId.zero.toJson
  registry.render field (← registry.valueOf field json)

def normalItem {items : List Json}
    (nested : (inner : List (String × Json)) → (Json.array items).Body inner →
      Except Error (List (String × Json))) :
    {item // item ∈ items} → Except Error Json
  | ⟨.object [(name, .object inner)], member⟩ =>
    (nested inner (.element member)).map fun inner => .object [(name, .object inner)]
  | _ => .error (.wrongShape WireType.array.name .elementList)

def normalValue (emptied : Bool) (field : Field) :
    (json : Json) → ((inner : List (String × Json)) → json.Body inner →
      Except Error (List (String × Json))) → Except Error Json
  | .object inner, nested =>
    if field.wireType? = some .object then (nested inner (.object inner)).map .object
    else registry.normalLeaf emptied field (.object inner)
  | .array items, nested =>
    if field.wireType? = some .array then (items.attach.mapM (normalItem nested)).map .array
    else registry.normalLeaf emptied field (.array items)
  | json, _ => registry.normalLeaf emptied field json

def normalForm (members : List (String × Json)) : Except Error (List (String × Json)) :=
  match _expansion : expandAddresses members with
  | .error e => .error e
  | .ok expanded =>
    (registry.wireMembers false expanded).attach.mapM fun ⟨(field, json), _member⟩ =>
      (registry.normalValue (emptiesAccount expanded) field json fun inner _body =>
        normalForm inner).map (field.name, ·)
termination_by sizeOf members
decreasing_by
  have inside := (mem_of_mem_wireMembers _expansion _member (Json.not_isAtom_of_body _body)).1
  have smaller := Json.sizeOf_lt_of_body _body
  have member_smaller := List.sizeOf_lt_of_mem inside
  simp at member_smaller
  omega

variable {registry}

variable (registry) in
def MemberForm (emptied : Bool) (member : Field × Json) (result : String × Json) : Prop :=
  result.1 = member.1.name ∧
    registry.normalValue emptied member.1 member.2 (fun inner _ => registry.normalForm inner) =
      .ok result.2

theorem normalForm_eq_ok {members normal : List (String × Json)} :
    registry.normalForm members = .ok normal ↔
      ∃ expanded, expandAddresses members = .ok expanded ∧
        List.Forall₂ (registry.MemberForm (emptiesAccount expanded))
          (registry.wireMembers false expanded) normal := by
  rw [normalForm]
  split
  · rename_i failed
    simp [failed]
  · rename_i expanded expansion
    rw [mapM_attach_eq_ok (R := registry.MemberForm (emptiesAccount expanded))]
    · simp [expansion]
    · rintro ⟨⟨field, json⟩, member⟩ ⟨name, value⟩
      simp only [map_eq_ok, Prod.mk.injEq, MemberForm]
      constructor
      · rintro ⟨_, made, rfl, rfl⟩
        exact ⟨rfl, made⟩
      · rintro ⟨rfl, made⟩
        exact ⟨value, made, rfl, rfl⟩

def ItemForm (normal : List (String × Json) → Except Error (List (String × Json)))
    (item json : Json) : Prop :=
  ∃ name inner result, item = .object [(name, .object inner)] ∧ normal inner = .ok result ∧
    json = .object [(name, .object result)]

section Values
variable {emptied : Bool} {field : Field}
  {normal : List (String × Json) → Except Error (List (String × Json))}

theorem normalItem_eq_ok {items : List Json} (item : {item // item ∈ items}) (json : Json) :
    normalItem (fun inner _ => normal inner) item = .ok json ↔ ItemForm normal item.val json := by
  obtain ⟨item, member⟩ := item
  unfold normalItem
  split
  · rename_i name inner _ same
    cases same
    rw [map_eq_ok]
    constructor
    · rintro ⟨result, made, rfl⟩
      exact ⟨name, inner, result, rfl, made, rfl⟩
    · rintro ⟨_, _, result, same, made, rfl⟩
      cases same
      exact ⟨result, made, rfl⟩
  · rename_i other
    constructor
    · exact nofun
    · rintro ⟨name, inner, -, rfl, -⟩
      exact absurd rfl (other name inner _)

theorem normalValue_object (typed : field.wireType? = some .object) (inner : List (String × Json)) :
    registry.normalValue emptied field (.object inner) (fun inner _ => normal inner) =
      (normal inner).map .object := by
  rw [normalValue, if_pos typed]

theorem normalValue_array_eq_ok (typed : field.wireType? = some .array) {items : List Json}
    {json : Json} :
    registry.normalValue emptied field (.array items) (fun inner _ => normal inner) = .ok json ↔
      ∃ results, List.Forall₂ (ItemForm normal) items results ∧ json = .array results := by
  rw [normalValue, if_pos typed, map_eq_ok]
  simp only [mapM_attach_eq_ok normalItem_eq_ok, eq_comm]

theorem normalValue_leaf {type : LeafType} (typed : field.wireType? = some (.leaf type))
    (json : Json) :
    registry.normalValue emptied field json (fun inner _ => normal inner) =
      registry.normalLeaf emptied field json := by
  unfold normalValue
  split
  · rw [if_neg (by simp [typed])]
  · rw [if_neg (by simp [typed])]
  · rfl

end Values

end Registry
end LedgerWire
