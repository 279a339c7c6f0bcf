import Mathlib.Logic.Relation
import LedgerWire.Proofs.Fields

namespace LedgerWire.Registry
variable (registry : Registry)

def memberType? (name : String) : Option WireType :=
  (registry.wireField? false name).bind Field.wireType?

/-- An object as the value of a member, or of the only member of an element of an array. -/
inductive Nested (members : List (String × Json)) : List (String × Json) → Prop
  | object {name : String} {inner : List (String × Json)} :
      (name, .object inner) ∈ members → registry.memberType? name = some .object →
      Nested members inner
  | element {name element : String} {items : List Json} {inner : List (String × Json)} :
      (name, .array items) ∈ members → registry.memberType? name = some .array →
      .object [(element, .object inner)] ∈ items → Nested members inner

abbrev Level : List (String × Json) → List (String × Json) → Prop :=
  Relation.ReflTransGen registry.Nested

mutual
/-- How many containers are open at once, at most, inside an object: members that are objects or
arrays, and the elements of arrays. -/
def nesting : Json → Nat
  | .object members => nestingOfMembers members
  | _ => 0

def nestingOfMembers : List (String × Json) → Nat
  | [] => 0
  | (name, json) :: rest =>
    max (match registry.memberType? name with
      | some .object => nesting json + 1
      | some .array => nestingOfArray json + 1
      | _ => 0) (nestingOfMembers rest)

def nestingOfArray : Json → Nat
  | .array items => nestingOfItems items
  | _ => 0

def nestingOfItems : List Json → Nat
  | [] => 0
  | .object [(_, body)] :: rest => max (nesting body + 1) (nestingOfItems rest)
  | _ :: rest => nestingOfItems rest
end

def nestingOf : Option WireType → Json → Nat
  | some .object, json => registry.nesting json + 1
  | some .array, json => registry.nestingOfArray json + 1
  | _, _ => 0

variable {registry}

theorem nestingOfMembers_cons (name : String) (json : Json) (rest : List (String × Json)) :
    registry.nestingOfMembers ((name, json) :: rest) =
      max (registry.nestingOf (registry.memberType? name) json)
        (registry.nestingOfMembers rest) := by
  rw [nestingOfMembers]
  rcases registry.memberType? name with _ | _ | _ | _ <;> rfl

theorem nestingOfMembers_le {members : List (String × Json)} {n : Nat} :
    registry.nestingOfMembers members ≤ n ↔
      ∀ member ∈ members, registry.nestingOf (registry.memberType? member.1) member.2 ≤ n := by
  induction members with
  | nil => simp [nestingOfMembers]
  | cons first rest ih =>
    rw [nestingOfMembers_cons, Nat.max_le, ih, List.forall_mem_cons]

theorem nestingOfItems_le {items : List Json} {n : Nat} :
    registry.nestingOfItems items ≤ n ↔
      ∀ name body, .object [(name, body)] ∈ items → registry.nesting body + 1 ≤ n := by
  induction items with
  | nil => simp [nestingOfItems]
  | cons first rest ih =>
    rcases first with _ | _ | _ | _ | _ | _ | ⟨⟨name, body⟩, _ | ⟨second, others⟩⟩
    case object.cons.nil =>
      rw [nestingOfItems, Nat.max_le, ih]
      constructor
      · rintro ⟨here, later⟩ other inner member
        rcases List.mem_cons.mp member with same | member
        · cases same
          exact here
        · exact later other inner member
      · intro all
        exact ⟨all name body List.mem_cons_self,
          fun other inner member => all other inner (List.mem_cons_of_mem _ member)⟩
    all_goals
      rw [nestingOfItems, ih]
      · simp
      · simp

theorem sizeOf_lt_of_nested {members inner : List (String × Json)}
    (h : registry.Nested members inner) : sizeOf inner < sizeOf members := by
  cases h with
  | object member =>
    have smaller := List.sizeOf_lt_of_mem member
    simp at smaller
    omega
  | element member _ item =>
    have smaller := List.sizeOf_lt_of_mem member
    have inside := List.sizeOf_lt_of_mem item
    simp at smaller inside
    omega

theorem level_induction {motive : List (String × Json) → Prop}
    (step : ∀ members, (∀ inner, registry.Nested members inner → motive inner) → motive members)
    (members : List (String × Json)) : motive members :=
  step members fun inner _nested => level_induction step inner
termination_by sizeOf members
decreasing_by exact sizeOf_lt_of_nested _nested

theorem memberType?_eq_some {name : String} {type : WireType} :
    registry.memberType? name = some type ↔
      ∃ field, registry.wireField? false name = some field ∧ field.wireType? = some type := by
  rw [memberType?, Option.bind_eq_some_iff]

section Containers
variable {members expanded : List (String × Json)} {name : String} {json : Json} {type : WireType}

theorem not_isAtom_object (inner : List (String × Json)) : ¬ (Json.object inner).IsAtom := by
  simp [Json.IsAtom]

theorem not_isAtom_array (items : List Json) : ¬ (Json.array items).IsAtom := by
  simp [Json.IsAtom]

theorem mem_wireMembers_of_container (h : expandAddresses members = .ok expanded)
    (distinct : DistinctNames members) (member : (name, json) ∈ members)
    (container : ¬ json.IsAtom) (not_null : json ≠ .null)
    (typed : registry.memberType? name = some type) :
    ∃ field, (field, json) ∈ registry.wireMembers false expanded ∧
      field.wireType? = some type := by
  obtain ⟨field, found, field_type⟩ := memberType?_eq_some.mp typed
  have kept := mem_expanded_of_mem h distinct member container not_null
  exact ⟨field, mem_wireMembers.mpr ⟨name, kept, found⟩, field_type⟩

theorem mem_of_mem_wireMembers {field : Field} {signingOnly : Bool}
    (h : expandAddresses members = .ok expanded)
    (member : (field, json) ∈ registry.wireMembers signingOnly expanded)
    (container : ¬ json.IsAtom) :
    (field.name, json) ∈ members ∧ registry.memberType? field.name = field.wireType? := by
  obtain ⟨name, kept, found⟩ := mem_wireMembers.mp member
  obtain ⟨-, -, rfl⟩ := wireField?_eq_some found
  exact ⟨mem_of_mem_expanded h kept container,
    by rw [memberType?, wireField?_false found, Option.bind_some]⟩

end Containers

theorem memberType?_of_carries {name : String} {type : WireType}
    (h : registry.carries name type = true) : registry.memberType? name = some type := by
  obtain ⟨field, found, carried⟩ := (Option.any_eq_true ..).mp h
  simp only [Bool.and_eq_true, beq_iff_eq] at carried
  obtain ⟨⟨on_wire, -⟩, typed⟩ := carried
  exact memberType?_eq_some.mpr
    ⟨field, Option.filter_eq_some_iff.mpr ⟨found, by simp [on_wire]⟩, typed⟩

variable (registry) in
/-- The value of a member that is written among the fields of an object, with its field. The value
of an account may be left out. -/
def Writes (signingOnly : Bool) (members : List (String × Json)) (field : Field) (json : Json) :
    Prop :=
  ∃ expanded, expandAddresses members = .ok expanded ∧
    (field, json) ∈ registry.wireMembers signingOnly expanded ∧
    (field.variableLength = true → (emptiesAccount expanded && field.name == "Account") = false)

section Writes
variable {signingOnly : Bool} {members inner : List (String × Json)} {field : Field} {json : Json}
  {bytes : Bytes}

theorem value_of_writes (accepted : registry.fieldBytes signingOnly (.object members) = .ok bytes)
    (writes : registry.Writes signingOnly members field json) :
    ∃ value, registry.valueOf field json = .ok value ∧ value.toBytes <:+: bytes := by
  obtain ⟨expanded, expansion, in_wire, kept⟩ := writes
  obtain ⟨_, _, parts, object, same, each, rfl⟩ := registry.fieldBytes_eq_ok.mp accepted
  cases object
  rw [expansion] at same
  cases same
  obtain ⟨part, in_parts, made⟩ := exists_right_of_mem each in_wire
  obtain ⟨value, written, built, wrote, rfl⟩ := value_of_memberBytes made
  refine ⟨value, built, List.IsInfix.trans ?_ (List.infix_of_mem_flatten in_parts)⟩
  obtain ⟨header, payload, -, rfl, ⟨-, rfl⟩ | ⟨prefixed, front, -, rfl⟩⟩ := written_eq_ok.mp wrote
  · exact List.infix_append _ _ _
  · rw [kept prefixed, if_neg Bool.false_ne_true, ← List.append_assoc]
    exact List.infix_append _ _ _

theorem body_of_writes_object
    (accepted : registry.fieldBytes signingOnly (.object members) = .ok bytes)
    (writes : registry.Writes signingOnly members field (.object inner))
    (typed : field.wireType? = some .object) :
    ∃ body, registry.fieldBytes false (.object inner) = .ok body ∧ body <:+: bytes := by
  obtain ⟨value, built, inside⟩ := value_of_writes accepted writes
  obtain ⟨body, accepted_inner, rfl⟩ := (valueOf_object_eq_ok typed).mp built
  exact ⟨body, accepted_inner, inside⟩

theorem body_of_writes_array {items : List Json} {name : String}
    (accepted : registry.fieldBytes signingOnly (.object members) = .ok bytes)
    (writes : registry.Writes signingOnly members field (.array items))
    (typed : field.wireType? = some .array) (item : .object [(name, .object inner)] ∈ items) :
    ∃ body, registry.fieldBytes false (.object inner) = .ok body ∧ body <:+: bytes := by
  obtain ⟨value, built, inside⟩ := value_of_writes accepted writes
  obtain ⟨_, parts, array, each, rfl⟩ := (valueOf_array_eq_ok typed).mp built
  cases array
  obtain ⟨part, in_parts, made⟩ := exists_right_of_mem each item
  obtain ⟨_, _, _, header, body, same, -, -, -, -, accepted_inner, rfl⟩ :=
    registry.itemBytes_eq_ok.mp made
  cases same
  refine ⟨body, accepted_inner, ?_⟩
  have in_item := List.infix_append header.encode body [objectEnd]
  have in_array := in_item.trans (List.infix_of_mem_flatten in_parts)
  exact (List.infix_append_of_infix_left in_array).trans inside

end Writes

theorem fieldBytes_of_nested (lawful : registry.Lawful) {members inner : List (String × Json)}
    {bytes : Bytes} (distinct : DistinctNames members)
    (accepted : registry.fieldBytes false (.object members) = .ok bytes)
    (nested : registry.Nested members inner) :
    ∃ body, registry.fieldBytes false (.object inner) = .ok body ∧ body <:+: bytes := by
  obtain ⟨_, expanded, -, object, expansion, -⟩ := registry.fieldBytes_eq_ok.mp accepted
  cases object
  have writes {field : Field} {json : Json} {type : WireType}
      (on_wire : (field, json) ∈ registry.wireMembers false expanded)
      (typed : field.wireType? = some type) (plain : type.prefixed = false) :
      registry.Writes false members field json := by
    refine ⟨expanded, expansion, on_wire, fun prefixed => ?_⟩
    rw [(known_of_mem_wireMembers on_wire).variableLength lawful typed, plain] at prefixed
    cases prefixed
  cases nested with
  | object member typed =>
    obtain ⟨field, on_wire, field_type⟩ :=
      mem_wireMembers_of_container expansion distinct member (not_isAtom_object _) nofun typed
    exact body_of_writes_object accepted (writes on_wire field_type rfl) field_type
  | element member typed item =>
    obtain ⟨field, on_wire, field_type⟩ :=
      mem_wireMembers_of_container expansion distinct member (not_isAtom_array _) nofun typed
    exact body_of_writes_array accepted (writes on_wire field_type rfl) field_type item

theorem fieldBytes_of_level (lawful : registry.Lawful) {members inner : List (String × Json)}
    {bytes : Bytes} (distinct : ∀ level, registry.Level members level → DistinctNames level)
    (accepted : registry.fieldBytes false (.object members) = .ok bytes)
    (level : registry.Level members inner) :
    ∃ body, registry.fieldBytes false (.object inner) = .ok body ∧ body <:+: bytes := by
  -- From the outermost object inwards, so that the bytes of every level are known before the next.
  induction level with
  | refl => exact ⟨bytes, accepted, List.infix_rfl⟩
  | tail level nested ih =>
    obtain ⟨body, accepted_middle, inside⟩ := ih
    obtain ⟨inner_body, accepted_inner, deeper⟩ :=
      fieldBytes_of_nested lawful (distinct _ level) accepted_middle nested
    exact ⟨inner_body, accepted_inner, deeper.trans inside⟩

end LedgerWire.Registry
