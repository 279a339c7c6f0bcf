import LedgerWire.Proofs.Outcome
import LedgerWire.Value.Expansion

namespace LedgerWire

/-- The members that one member makes when its tagged address, if it is one, is expanded. -/
inductive Expands (members : List (String × Json)) (name : String) :
    Json → List (String × Json) → Prop
  | plain {value : Json} :
      (∀ text x, value = .string text → TaggedAddress.decode text ≠ .ok x) →
      Expands members name value []
  | untagged {text : String} {x : TaggedAddress} :
      TaggedAddress.decode text = .ok x → x.tag = none →
      Expands members name (.string text) [(name, .string x.classic)]
  | moved {text tagName : String} {x : TaggedAddress} {tag : UInt32} :
      TaggedAddress.decode text = .ok x → x.tag = some tag → tagMember? name = some tagName →
      (members.lookup tagName = none ∨ members.lookup tagName = some .null) →
      Expands members name (.string text)
        [(name, .string x.classic), (tagName, Json.ofNat tag.toNat)]
  | agreed {text tagName : String} {x : TaggedAddress} {tag : UInt32} {explicit : Json} :
      TaggedAddress.decode text = .ok x → x.tag = some tag → tagMember? name = some tagName →
      members.lookup tagName = some explicit → tagAgrees tag explicit = true →
      Expands members name (.string text) [(name, .string x.classic)]

theorem plain_or_tagged (value : Json) :
    (∀ text x, value = .string text → TaggedAddress.decode text ≠ .ok x) ∨
      ∃ text x, value = .string text ∧ TaggedAddress.decode text = .ok x := by
  by_cases plain : ∀ text x, value = .string text → TaggedAddress.decode text ≠ .ok x
  · exact .inl plain
  · exact .inr (by simpa using plain)

theorem addressEdits_plain {members : List (String × Json)} {name : String} {value : Json}
    (plain : ∀ text x, value = .string text → TaggedAddress.decode text ≠ .ok x) :
    addressEdits members name value = .ok [] := by
  unfold addressEdits
  split
  · rename_i text
    cases read : TaggedAddress.decode text with
    | error fault => rfl
    | ok x => exact absurd read (plain text x rfl)
  · rfl

theorem addressEdits_untagged {members : List (String × Json)} {name text : String}
    {x : TaggedAddress} (read : TaggedAddress.decode text = .ok x) (untagged : x.tag = none) :
    addressEdits members name (.string text) = .ok [(name, .string x.classic)] := by
  simp only [addressEdits, read, untagged]
  rfl

theorem addressEdits_tagged {members : List (String × Json)} {name text tagName : String}
    {x : TaggedAddress} {tag : UInt32} (read : TaggedAddress.decode text = .ok x)
    (tagged : x.tag = some tag) (paired : tagMember? name = some tagName) :
    addressEdits members name (.string text) =
      match members.lookup tagName with
      | none => .ok [(name, .string x.classic), (tagName, Json.ofNat tag.toNat)]
      | some .null => .ok [(name, .string x.classic), (tagName, Json.ofNat tag.toNat)]
      | some explicit =>
        if tagAgrees tag explicit then .ok [(name, .string x.classic)]
        else .error (.tagConflict name tag tagName (explicitText explicit)) := by
  simp only [addressEdits, read, tagged, paired]
  rfl

theorem addressEdits_congr {members others : List (String × Json)} {name : String} {value : Json}
    (tag : ∀ tagName, tagMember? name = some tagName →
      others.lookup tagName = members.lookup tagName) :
    addressEdits others name value = addressEdits members name value := by
  cases value with
  | string text =>
    cases read : TaggedAddress.decode text with
    | error fault => simp only [addressEdits, read]
    | ok x =>
      cases tagged : x.tag with
      | none => rw [addressEdits_untagged read tagged, addressEdits_untagged read tagged]
      | some number =>
        cases paired : tagMember? name with
        | none => simp only [addressEdits, read, tagged, paired]
        | some tagName =>
          rw [addressEdits_tagged read tagged paired, addressEdits_tagged read tagged paired,
            tag tagName paired]
  | _ => rfl

theorem addressEdits_of_expands {members edits : List (String × Json)} {name : String}
    {value : Json} (h : Expands members name value edits) :
    addressEdits members name value = .ok edits := by
  cases h with
  | plain plain => exact addressEdits_plain plain
  | untagged read untagged => exact addressEdits_untagged read untagged
  | moved read tagged paired absent =>
    rw [addressEdits_tagged read tagged paired]
    rcases absent with missing | null
    · rw [missing]
    · rw [null]
  | @agreed _ _ _ _ explicit read tagged paired found agrees =>
    rw [addressEdits_tagged read tagged paired, found]
    cases explicit with
    | null => cases agrees
    | _ => simp only [agrees, if_true]

theorem expands_of_addressEdits {members edits : List (String × Json)} {name : String}
    {value : Json} (h : addressEdits members name value = .ok edits) :
    Expands members name value edits := by
  rcases plain_or_tagged value with plain | ⟨text, x, rfl, read⟩
  · rw [addressEdits_plain plain] at h
    cases h
    exact .plain plain
  · cases tagged : x.tag with
    | none =>
      rw [addressEdits_untagged read tagged] at h
      cases h
      exact .untagged read tagged
    | some tag =>
      cases paired : tagMember? name with
      | none =>
        simp only [addressEdits, read, tagged, paired] at h
        cases h
      | some tagName =>
        rw [addressEdits_tagged read tagged paired] at h
        split at h
        · rename_i missing
          cases h
          exact .moved read tagged paired (.inl missing)
        · rename_i null
          cases h
          exact .moved read tagged paired (.inr null)
        · rename_i explicit _ found
          split at h
          · rename_i agrees
            cases h
            exact .agreed read tagged paired found agrees
          · cases h

theorem tagged_of_addressEdits_error {members : List (String × Json)} {name : String}
    {value : Json} {e : Error} (h : addressEdits members name value = .error e) :
    ∃ text x tag, value = .string text ∧ TaggedAddress.decode text = .ok x ∧ x.tag = some tag := by
  rcases plain_or_tagged value with plain | ⟨text, x, rfl, read⟩
  · rw [addressEdits_plain plain] at h
    cases h
  · cases tagged : x.tag with
    | none =>
      rw [addressEdits_untagged read tagged] at h
      cases h
    | some tag => exact ⟨text, x, tag, rfl, read, tagged⟩

def Json.IsAtom (json : Json) : Prop :=
  (∃ text, json = .string text) ∨ ∃ number, json = .number number

theorem isAtom_of_expands {members edits : List (String × Json)} {name : String} {value : Json}
    (h : Expands members name value edits) : ∀ edit ∈ edits, edit.2.IsAtom := by
  intro edit member
  cases h with
  | plain => cases member
  | untagged | agreed =>
    rw [List.mem_singleton.mp member]
    exact .inl ⟨_, rfl⟩
  | moved =>
    rcases List.mem_cons.mp member with rfl | member
    · exact .inl ⟨_, rfl⟩
    · rw [List.mem_singleton.mp member]
      exact .inr ⟨_, rfl⟩

theorem expansionEdits_eq_ok {members edits : List (String × Json)} :
    expansionEdits members = .ok edits ↔
      ∃ parts, List.Forall₂ (fun member part => Expands members member.1 member.2 part)
        members parts ∧ parts.flatten = edits := by
  unfold expansionEdits
  rw [bind_eq_ok]
  constructor
  · rintro ⟨parts, each, made⟩
    refine ⟨parts, (mapM_eq_ok.mp each).imp fun _ _ h => expands_of_addressEdits h, ?_⟩
    exact Except.ok.inj made
  · rintro ⟨parts, each, rfl⟩
    exact ⟨parts, mapM_eq_ok.mpr (each.imp fun _ _ h => addressEdits_of_expands h), rfl⟩

theorem isAtom_of_expansionEdits {members edits : List (String × Json)}
    (h : expansionEdits members = .ok edits) : ∀ edit ∈ edits, edit.2.IsAtom := by
  obtain ⟨parts, each, rfl⟩ := expansionEdits_eq_ok.mp h
  intro edit member
  obtain ⟨part, in_parts, inside⟩ := List.mem_flatten.mp member
  obtain ⟨⟨name, value⟩, -, expands⟩ := exists_left_of_mem each in_parts
  exact isAtom_of_expands expands edit inside

def DistinctNames {α : Type} (members : List (String × α)) : Prop :=
  (members.map Prod.fst).Nodup

instance {α : Type} (members : List (String × α)) : Decidable (DistinctNames members) :=
  inferInstanceAs (Decidable (members.map Prod.fst).Nodup)

section Members
variable {α : Type} {members : List (String × α)} {name : String} {value : α}

theorem mem_of_lookup (h : members.lookup name = some value) : (name, value) ∈ members := by
  obtain ⟨front, back, whole, -⟩ := List.lookup_eq_some_iff.mp h
  rw [whole]
  simp

theorem lookup_of_mem (distinct : DistinctNames members) (member : (name, value) ∈ members) :
    members.lookup name = some value := by
  induction members with
  | nil => cases member
  | cons first rest ih =>
    obtain ⟨absent, rest_distinct⟩ := List.nodup_cons.mp distinct
    rcases List.mem_cons.mp member with rfl | member
    · simp
    · have other : name ≠ first.1 := by
        rintro rfl
        exact absent (List.mem_map.mpr ⟨_, member, rfl⟩)
      rw [List.lookup_cons, beq_eq_false_iff_ne.mpr other]
      exact ih rest_distinct member

theorem mem_of_mem_setMember {entry : String × α} (h : entry ∈ setMember name value members) :
    entry = (name, value) ∨ entry ∈ members := by
  induction members with
  | nil => exact .inl (List.mem_singleton.mp h)
  | cons first rest ih =>
    obtain ⟨other, old⟩ := first
    rw [setMember] at h
    split at h
    · rename_i same
      rcases List.mem_cons.mp h with rfl | h
      · exact .inl (by rw [same])
      · exact .inr (List.mem_cons_of_mem _ h)
    · rcases List.mem_cons.mp h with rfl | h
      · exact .inr List.mem_cons_self
      · exact (ih h).imp_right (List.mem_cons_of_mem _)

theorem distinctNames_setMember (distinct : DistinctNames members) :
    DistinctNames (setMember name value members) := by
  induction members with
  | nil => simp [setMember, DistinctNames]
  | cons first rest ih =>
    obtain ⟨other, old⟩ := first
    obtain ⟨absent, rest_distinct⟩ := List.nodup_cons.mp distinct
    rw [setMember]
    split
    · exact distinct
    · rename_i different
      refine List.nodup_cons.mpr ⟨fun repeated => ?_, ih rest_distinct⟩
      obtain ⟨entry, member, named⟩ := List.mem_map.mp repeated
      rcases mem_of_mem_setMember member with rfl | member
      · exact different named.symm
      · exact absent (List.mem_map.mpr ⟨entry, member, named⟩)

def edited (edits members : List (String × α)) : List (String × α) :=
  edits.foldl (fun all edit => setMember edit.1 edit.2 all) members

theorem distinctNames_edited (edits : List (String × α)) (distinct : DistinctNames members) :
    DistinctNames (edited edits members) := by
  induction edits generalizing members with
  | nil => exact distinct
  | cons edit edits ih => exact ih (distinctNames_setMember distinct)

theorem mem_of_mem_edited {edits : List (String × α)} {entry : String × α}
    (h : entry ∈ edited edits members) : entry ∈ edits ∨ entry ∈ members := by
  induction edits generalizing members with
  | nil => exact .inr h
  | cons edit edits ih =>
    rcases ih h with member | member
    · exact .inl (List.mem_cons_of_mem _ member)
    · rcases mem_of_mem_setMember member with rfl | member
      · exact .inl List.mem_cons_self
      · exact .inr member

theorem lookup_edited_of_none {edits : List (String × α)}
    (others : ∀ edit ∈ edits, edit.1 ≠ name) :
    (edited edits members).lookup name = members.lookup name := by
  induction edits generalizing members with
  | nil => rfl
  | cons edit edits ih =>
    have other : name ≠ edit.1 := (others edit List.mem_cons_self).symm
    rw [edited, List.foldl_cons, ← edited,
      ih fun later member => others later (List.mem_cons_of_mem _ member), lookup_setMember,
      if_neg other]

theorem lookup_edited_of_mem {edits : List (String × α)} (member : (name, value) ∈ edits)
    (same : ∀ edit ∈ edits, edit.1 = name → edit.2 = value) :
    (edited edits members).lookup name = some value := by
  induction edits generalizing members with
  | nil => cases member
  | cons edit edits ih =>
    rw [edited, List.foldl_cons, ← edited]
    by_cases later : (name, value) ∈ edits
    · exact ih later fun other in_edits => same other (List.mem_cons_of_mem _ in_edits)
    · obtain rfl : (name, value) = edit := (List.mem_cons.mp member).resolve_right later
      rw [lookup_edited_of_none, lookup_setMember, if_pos rfl]
      rintro other in_edits rfl
      have value_same := same other (List.mem_cons_of_mem _ in_edits) rfl
      exact later (by rw [← value_same]; exact in_edits)

end Members

/-- Two objects have the same names in the same places, and related values under them. -/
def Aligned (R : String → Json → Json → Prop) (members others : List (String × Json)) : Prop :=
  List.Forall₂ (fun member other => member.1 = other.1 ∧ R member.1 member.2 other.2) members others

section Aligned
variable {R : String → Json → Json → Prop} {members others : List (String × Json)}

theorem aligned_swap (same : ∀ name json, R name json json) {name : String} {json other : Json}
    (related : R name json other) (front back : List (String × Json)) :
    Aligned R (front ++ (name, json) :: back) (front ++ (name, other) :: back) := by
  have kept (part : List (String × Json)) : Aligned R part part :=
    List.forall₂_same.mpr fun member _ => ⟨rfl, same member.1 member.2⟩
  exact List.rel_append (kept front) (.cons ⟨rfl, related⟩ (kept back))

theorem Aligned.setMember (aligned : Aligned R members others)
    (same : ∀ name json, R name json json) (name : String) (json : Json) :
    Aligned R (setMember name json members) (setMember name json others) := by
  induction aligned with
  | nil => exact .cons ⟨rfl, same name json⟩ .nil
  | @cons member other _ _ head rest ih =>
    obtain ⟨first, value⟩ := member
    obtain ⟨_, value'⟩ := other
    obtain ⟨rfl, related⟩ := head
    rw [LedgerWire.setMember, LedgerWire.setMember]
    by_cases here : first = name
    · rw [if_pos here, if_pos here]
      exact .cons ⟨rfl, same first json⟩ rest
    · rw [if_neg here, if_neg here]
      exact .cons ⟨rfl, related⟩ ih

theorem Aligned.edited (aligned : Aligned R members others)
    (same : ∀ name json, R name json json) (edits : List (String × Json)) :
    Aligned R (edited edits members) (edited edits others) := by
  induction edits generalizing members others with
  | nil => exact aligned
  | cons edit edits ih => exact ih (aligned.setMember same edit.1 edit.2)

theorem Aligned.lookup (aligned : Aligned R members others) (name : String) :
    Option.Rel (R name) (members.lookup name) (others.lookup name) := by
  induction aligned with
  | nil => exact .none
  | @cons member other _ _ head rest ih =>
    obtain ⟨first, value⟩ := member
    obtain ⟨_, value'⟩ := other
    obtain ⟨rfl, related⟩ := head
    by_cases here : name = first
    · subst here
      simpa using Option.Rel.some related
    · simpa [List.lookup_cons, beq_eq_false_iff_ne.mpr here] using ih

end Aligned

theorem expandAddresses_eq_ok {members expanded : List (String × Json)} :
    expandAddresses members = .ok expanded ↔
      ∃ edits, expansionEdits members = .ok edits ∧ expanded = edited edits members := by
  rw [expandAddresses, bind_eq_ok]
  constructor
  · rintro ⟨edits, made, set⟩
    exact ⟨edits, made, (Except.ok.inj set).symm⟩
  · rintro ⟨edits, made, rfl⟩
    exact ⟨edits, made, rfl⟩

theorem expandAddresses_of_plain {members : List (String × Json)}
    (plain : ∀ name text, (name, .string text) ∈ members → ∀ x, TaggedAddress.decode text ≠ .ok x) :
    expandAddresses members = .ok members := by
  refine expandAddresses_eq_ok.mpr
    ⟨[], expansionEdits_eq_ok.mpr ⟨members.map fun _ => [], ?_, ?_⟩, rfl⟩
  · rw [List.forall₂_map_right_iff, List.forall₂_same]
    rintro ⟨name, json⟩ member
    refine .plain fun text x same => ?_
    subst same
    exact plain name text member x
  · simp

theorem expandAddresses_of_expands {members : List (String × Json)}
    (h : ∀ member ∈ members, ∃ part, Expands members member.1 member.2 part) :
    ∃ expanded, expandAddresses members = .ok expanded := by
  obtain ⟨parts, each⟩ := exists_forall₂ h
  exact ⟨_, expandAddresses_eq_ok.mpr ⟨_, expansionEdits_eq_ok.mpr ⟨parts, each, rfl⟩, rfl⟩⟩

theorem expands_of_mem {members expanded : List (String × Json)}
    (h : expandAddresses members = .ok expanded) {name : String} {value : Json}
    (member : (name, value) ∈ members) : ∃ part, Expands members name value part := by
  obtain ⟨edits, made, -⟩ := expandAddresses_eq_ok.mp h
  obtain ⟨parts, each, -⟩ := expansionEdits_eq_ok.mp made
  obtain ⟨part, -, expands⟩ := exists_right_of_mem each member
  exact ⟨part, expands⟩

theorem distinctNames_expanded {members expanded : List (String × Json)}
    (h : expandAddresses members = .ok expanded) (distinct : DistinctNames members) :
    DistinctNames expanded := by
  obtain ⟨edits, -, rfl⟩ := expandAddresses_eq_ok.mp h
  exact distinctNames_edited edits distinct

theorem mem_of_mem_expanded {members expanded : List (String × Json)} {name : String} {json : Json}
    (h : expandAddresses members = .ok expanded) (member : (name, json) ∈ expanded)
    (container : ¬ json.IsAtom) : (name, json) ∈ members := by
  obtain ⟨edits, made, rfl⟩ := expandAddresses_eq_ok.mp h
  rcases mem_of_mem_edited member with edit | member
  · exact absurd (isAtom_of_expansionEdits made _ edit) container
  · exact member

/-- A value with a tagged address replaced by the classic one. -/
def Json.classic : Json → Json
  | .string text =>
    match TaggedAddress.decode text with
    | .ok x => .string x.classic
    | .error _ => .string text
  | json => json

theorem Json.classic_of_plain {json : Json}
    (plain : ∀ text x, json = .string text → TaggedAddress.decode text ≠ .ok x) :
    json.classic = json := by
  cases json with
  | string text =>
    cases read : TaggedAddress.decode text with
    | error fault => simp [classic, read]
    | ok x => exact absurd read (plain text x rfl)
  | _ => rfl

/-- The tag of an account moves to a member of that name, which holds nothing yet. -/
structure Moves (members : List (String × Json)) (tagName : String) (tag : UInt32) : Prop where
  tagged : ∃ name text x, tagMember? name = some tagName ∧
    members.lookup name = some (.string text) ∧ TaggedAddress.decode text = .ok x ∧ x.tag = some tag
  free : members.lookup tagName = none ∨ members.lookup tagName = some .null

theorem Moves.eq_null {members : List (String × Json)} {name : String} {tag : UInt32} {json : Json}
    (moves : Moves members name tag) (found : members.lookup name = some json) : json = .null := by
  rcases moves.free with missing | null
  · rw [missing] at found
    cases found
  · rw [null] at found
    exact (Option.some.inj found).symm

theorem tagMember?_eq_some {name tagName : String} (h : tagMember? name = some tagName) :
    (name = "Account" ∧ tagName = "SourceTag") ∨
      (name = "Destination" ∧ tagName = "DestinationTag") := by
  simp only [tagMember?, List.lookup_cons, List.lookup_nil] at h
  split at h
  · rename_i account
    exact .inl ⟨beq_iff_eq.mp account, (Option.some.inj h).symm⟩
  · split at h
    · rename_i destination
      exact .inr ⟨beq_iff_eq.mp destination, (Option.some.inj h).symm⟩
    · cases h

theorem tagMember?_inj {name other tagName : String} (h : tagMember? name = some tagName)
    (same : tagMember? other = some tagName) : name = other := by
  rcases tagMember?_eq_some h with ⟨rfl, rfl⟩ | ⟨rfl, rfl⟩ <;>
    rcases tagMember?_eq_some same with ⟨rfl, named⟩ | ⟨rfl, named⟩ <;> simp at named ⊢

theorem Moves.unique {members : List (String × Json)} {tagName : String} {tag other : UInt32}
    (h : Moves members tagName tag) (same : Moves members tagName other) : tag = other := by
  obtain ⟨name, text, x, paired, found, read, tagged⟩ := h.tagged
  obtain ⟨name', text', x', paired', found', read', tagged'⟩ := same.tagged
  obtain rfl := tagMember?_inj paired paired'
  rw [found] at found'
  cases found'
  rw [read] at read'
  cases read'
  rw [tagged] at tagged'
  exact Option.some.inj tagged'

section Expanded
variable {members edits expanded : List (String × Json)} {name : String}

theorem edit_cases (distinct : DistinctNames members) (h : expansionEdits members = .ok edits)
    {edit : String × Json} (member : edit ∈ edits) :
    (∃ text x, members.lookup edit.1 = some (.string text) ∧ TaggedAddress.decode text = .ok x ∧
      edit.2 = .string x.classic) ∨
    ∃ tag, Moves members edit.1 tag ∧ edit.2 = .ofNat tag.toNat := by
  obtain ⟨parts, each, rfl⟩ := expansionEdits_eq_ok.mp h
  obtain ⟨part, in_parts, inside⟩ := List.mem_flatten.mp member
  obtain ⟨⟨name, value⟩, in_members, expands⟩ := exists_left_of_mem each in_parts
  have found := lookup_of_mem distinct in_members
  cases expands with
  | plain => cases inside
  | untagged read | agreed read =>
    rw [List.mem_singleton.mp inside]
    exact .inl ⟨_, _, found, read, rfl⟩
  | moved read tagged paired free =>
    rcases List.mem_cons.mp inside with rfl | inside
    · exact .inl ⟨_, _, found, read, rfl⟩
    · rw [List.mem_singleton.mp inside]
      exact .inr ⟨_, ⟨⟨_, _, _, paired, found, read, tagged⟩, free⟩, rfl⟩

theorem classic_mem_edits (h : expansionEdits members = .ok edits) {text : String}
    {x : TaggedAddress} (member : (name, .string text) ∈ members)
    (read : TaggedAddress.decode text = .ok x) : (name, .string x.classic) ∈ edits := by
  obtain ⟨parts, each, rfl⟩ := expansionEdits_eq_ok.mp h
  obtain ⟨part, in_parts, expands⟩ := exists_right_of_mem each member
  refine List.mem_flatten.mpr ⟨part, in_parts, ?_⟩
  cases expands with
  | plain plain => exact absurd read (plain _ x rfl)
  | untagged read' | agreed read' | moved read' =>
    rw [read] at read'
    cases read'
    exact List.mem_cons_self

theorem tag_mem_edits (h : expansionEdits members = .ok edits) {tag : UInt32}
    (moves : Moves members name tag) : (name, .ofNat tag.toNat) ∈ edits := by
  obtain ⟨account, text, x, paired, found, read, tagged⟩ := moves.tagged
  obtain ⟨parts, each, rfl⟩ := expansionEdits_eq_ok.mp h
  obtain ⟨part, in_parts, expands⟩ := exists_right_of_mem each (mem_of_lookup found)
  refine List.mem_flatten.mpr ⟨part, in_parts, ?_⟩
  cases expands with
  | plain plain => exact absurd read (plain _ x rfl)
  | untagged read' untagged =>
    rw [read] at read'
    cases read'
    rw [untagged] at tagged
    cases tagged
  | agreed read' _ paired' explicit agrees =>
    rw [paired] at paired'
    cases paired'
    rcases moves.free with missing | null
    · rw [missing] at explicit
      cases explicit
    · rw [null] at explicit
      cases explicit
      cases agrees
  | moved read' tagged' paired' =>
    rw [paired] at paired'
    rw [read] at read'
    cases paired'
    cases read'
    rw [tagged] at tagged'
    cases tagged'
    exact List.mem_cons_of_mem _ List.mem_cons_self

theorem lookup_expanded_of_moves (h : expandAddresses members = .ok expanded)
    (distinct : DistinctNames members) {tag : UInt32} (moves : Moves members name tag) :
    expanded.lookup name = some (.ofNat tag.toNat) := by
  obtain ⟨edits, made, rfl⟩ := expandAddresses_eq_ok.mp h
  refine lookup_edited_of_mem (tag_mem_edits made moves) ?_
  rintro edit member rfl
  rcases edit_cases distinct made member with ⟨text, x, found, -⟩ | ⟨other, also, value⟩
  · cases moves.eq_null found
  · rw [value, moves.unique also]

theorem lookup_expanded (h : expandAddresses members = .ok expanded)
    (distinct : DistinctNames members) (stays : ∀ tag, ¬ Moves members name tag) :
    expanded.lookup name = (members.lookup name).map Json.classic := by
  obtain ⟨edits, made, rfl⟩ := expandAddresses_eq_ok.mp h
  -- Only two edits can set a name: a classic address for a tagged one, and a tag, which stays here.
  by_cases edit : ∃ text x, members.lookup name = some (.string text) ∧
      TaggedAddress.decode text = .ok x
  · obtain ⟨text, x, found, read⟩ := edit
    rw [found, lookup_edited_of_mem (classic_mem_edits made (mem_of_lookup found) read)]
    · simp [Json.classic, read]
    · rintro edit member rfl
      rcases edit_cases distinct made member with ⟨text', x', found', read', value⟩ | ⟨tag, also, -⟩
      · rw [found] at found'
        cases found'
        rw [read] at read'
        cases read'
        exact value
      · exact absurd also (stays tag)
  · rw [lookup_edited_of_none]
    · cases found : members.lookup name with
      | none => rfl
      | some json =>
        rw [Option.map_some, Json.classic_of_plain]
        rintro text x rfl read
        exact edit ⟨text, x, found, read⟩
    · rintro edit' member rfl
      rcases edit_cases distinct made member with ⟨text, x, found, read, -⟩ | ⟨tag, also, -⟩
      · exact edit ⟨text, x, found, read⟩
      · exact stays tag also

theorem exists_mem_of_mem_expanded (h : expandAddresses members = .ok expanded) {json : Json}
    (member : (name, json) ∈ expanded) :
    (∃ json, (name, json) ∈ members) ∨ ∃ account, tagMember? account = some name := by
  obtain ⟨edits, made, rfl⟩ := expandAddresses_eq_ok.mp h
  rcases mem_of_mem_edited member with edit | member
  · obtain ⟨parts, each, rfl⟩ := expansionEdits_eq_ok.mp made
    obtain ⟨part, in_parts, inside⟩ := List.mem_flatten.mp edit
    obtain ⟨⟨account, value⟩, in_members, expands⟩ := exists_left_of_mem each in_parts
    cases expands with
    | plain => cases inside
    | untagged | agreed =>
      cases List.mem_singleton.mp inside
      exact .inl ⟨_, in_members⟩
    | moved _ _ paired =>
      rcases List.mem_cons.mp inside with same | inside
      · cases same
        exact .inl ⟨_, in_members⟩
      · cases List.mem_singleton.mp inside
        exact .inr ⟨account, paired⟩
  · exact .inl ⟨json, member⟩

theorem exists_mem_expanded (h : expandAddresses members = .ok expanded)
    (distinct : DistinctNames members) {json : Json} (member : (name, json) ∈ members) :
    ∃ json, (name, json) ∈ expanded := by
  by_cases moves : ∃ tag, Moves members name tag
  · obtain ⟨tag, moves⟩ := moves
    exact ⟨_, mem_of_lookup (lookup_expanded_of_moves h distinct moves)⟩
  · refine ⟨json.classic, mem_of_lookup ?_⟩
    rw [lookup_expanded h distinct fun tag moved => moves ⟨tag, moved⟩,
      lookup_of_mem distinct member, Option.map_some]

theorem mem_expanded_of_mem (h : expandAddresses members = .ok expanded)
    (distinct : DistinctNames members) {json : Json} (member : (name, json) ∈ members)
    (container : ¬ json.IsAtom) (not_null : json ≠ .null) : (name, json) ∈ expanded := by
  have found := lookup_of_mem distinct member
  apply mem_of_lookup
  rw [lookup_expanded h distinct, found, Option.map_some, Json.classic_of_plain]
  · rintro text x rfl
    exact absurd (.inl ⟨text, rfl⟩) container
  · exact fun tag moves => not_null (moves.eq_null found)

end Expanded

end LedgerWire
