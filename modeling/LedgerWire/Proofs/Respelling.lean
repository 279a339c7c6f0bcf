import LedgerWire.Identifier
import LedgerWire.Proofs.Address
import LedgerWire.Proofs.FieldRendering
import LedgerWire.Proofs.Levels
import LedgerWire.Proofs.WireOrder
import LedgerWire.Signing

namespace LedgerWire

theorem addressEdits_swap {front back : List (String × Json)} {name : String} {json other : Json}
    (not_tag : ∀ account, tagMember? account ≠ some name) (account : String) (value : Json) :
    addressEdits (front ++ (name, other) :: back) account value =
      addressEdits (front ++ (name, json) :: back) account value := by
  refine addressEdits_congr fun tagName paired => ?_
  have different : tagName ≠ name := fun same => not_tag account (same ▸ paired)
  have elsewhere : Aligned (fun here json other => here ≠ name → other = json)
      (front ++ (name, json) :: back) (front ++ (name, other) :: back) :=
    aligned_swap (fun _ _ _ => rfl) (fun here => absurd rfl here) front back
  have same := elsewhere.lookup tagName
  generalize (front ++ (name, json) :: back).lookup tagName = found at same
  generalize (front ++ (name, other) :: back).lookup tagName = other_found at same
  cases same with
  | none => rfl
  | some same => rw [same different]

theorem expansionEdits_swap {name : String} {json other : Json}
    (plain : ∀ text x, json = .string text → TaggedAddress.decode text ≠ .ok x)
    (other_plain : ∀ text x, other = .string text → TaggedAddress.decode text ≠ .ok x)
    (not_tag : ∀ account, tagMember? account ≠ some name) (front back : List (String × Json)) :
    expansionEdits (front ++ (name, other) :: back) =
      expansionEdits (front ++ (name, json) :: back) := by
  have each : Aligned (fun here value value' =>
      addressEdits (front ++ (name, json) :: back) here value =
        addressEdits (front ++ (name, other) :: back) here value')
      (front ++ (name, json) :: back) (front ++ (name, other) :: back) :=
    aligned_swap (fun here value => (addressEdits_swap not_tag here value).symm)
      (by rw [addressEdits_plain plain, addressEdits_plain other_plain]) front back
  have results := mapM_congr (each.imp fun member other related =>
    related.2.trans (by rw [related.1]))
  rw [expansionEdits, expansionEdits]
  exact congrArg (fun parts => parts >>= fun parts => pure parts.flatten) results.symm

namespace Registry
variable (registry : Registry)

/-- Two values of a member are written alike. Where there is an account, they also agree on
whether it is written without its bytes. -/
structure Interchangeable (account : Prop) (name : String) (json other : Json) : Prop where
  body : registry.fieldBytes false other = registry.fieldBytes false json
  bytes : ∀ emptyAccount field, registry.wireField? false name = some field →
    registry.memberBytes emptyAccount field other = registry.memberBytes emptyAccount field json
  type : account → name = "TransactionType" →
    (other.string? = some emptyAccountType ↔ json.string? = some emptyAccountType)

/-- In one place of a value, the name of a code is replaced by the code; `beside` are the members
beside that place. Values that hold no fields are not looked into. -/
inductive Respelled (beside : List (String × Json)) (name text : String) : Json → Json → Prop
  | code (front back : List (String × Json)) {enumeration : Enumeration} {code : Int32} :
      beside = front ++ back → Enumeration.ofName? name = some enumeration →
      registry.codeOf enumeration text = .ok code →
      Respelled beside name text (.object (front ++ (name, .string text) :: back))
        (.object (front ++ (name, .number (.integer code.toInt)) :: back))
  | member (front back : List (String × Json)) {container : String} {json other : Json} :
      (∀ type, registry.memberType? container ≠ some (.leaf type)) →
      Respelled beside name text json other →
      Respelled beside name text (.object (front ++ (container, json) :: back))
        (.object (front ++ (container, other) :: back))
  | item (front back : List Json) {json other : Json} :
      Respelled beside name text json other →
      Respelled beside name text (.array (front ++ json :: back)) (.array (front ++ other :: back))

variable {registry : Registry} {account : Prop} {name text : String} {json other : Json}

theorem Interchangeable.refl (name : String) (json : Json) :
    registry.Interchangeable account name json json :=
  ⟨rfl, fun _ _ _ => rfl, fun _ _ => .rfl⟩

theorem memberBytes_of_not_account {field : Field} (not_account : field.name ≠ "Account")
    (emptyAccount other_empty : Bool) (json : Json) :
    registry.memberBytes emptyAccount field json = registry.memberBytes other_empty field json := by
  simp only [memberBytes, beq_eq_false_iff_ne.mpr not_account, Bool.and_false]

theorem map_wireMembers_of_aligned {β : Type} {signingOnly : Bool}
    {members others : List (String × Json)} {make make' : Field → Json → β}
    (aligned : Aligned (fun name json other => ∀ field,
      registry.wireField? signingOnly name = some field → make' field other = make field json)
        members others) :
    ((registry.wireMembers signingOnly others).map fun member => make' member.1 member.2) =
      (registry.wireMembers signingOnly members).map fun member => make member.1 member.2 := by
  have made (all : List (String × Json)) (make : Field → Json → β) :
      ((registry.wireMembers signingOnly all).map fun member =>
        (member.1, make member.1 member.2)) =
        (all.filterMap fun member => (registry.wireField? signingOnly member.1).map fun field =>
          (field, make field member.2)).mergeSort fun a b => a.1.ordinal ≤ b.1.ordinal := by
    rw [wireMembers, List.map_mergeSort
      (s := fun a b : Field × β => decide (a.1.ordinal ≤ b.1.ordinal)) fun _ _ _ _ => rfl,
      List.map_filterMap]
    simp only [Option.map_map, Function.comp_def]
  have entries : (others.filterMap fun member =>
        (registry.wireField? signingOnly member.1).map fun field => (field, make' field member.2)) =
      members.filterMap fun member =>
        (registry.wireField? signingOnly member.1).map fun field =>
          (field, make field member.2) := by
    induction aligned with
    | nil => rfl
    | @cons member other _ _ head rest ih =>
      obtain ⟨named, related⟩ := head
      rw [List.filterMap_cons, List.filterMap_cons, ih, ← named]
      cases found : registry.wireField? signingOnly member.1 with
      | none => rfl
      | some field => simp only [Option.map_some, related field found]
  have whole := congrArg (List.map Prod.snd) ((made others make').trans
    ((congrArg (List.mergeSort · fun a b => decide (a.1.ordinal ≤ b.1.ordinal)) entries).trans
      (made members make).symm))
  rwa [List.map_map, List.map_map] at whole

theorem emptiesAccount_of_aligned (here : account) {members others : List (String × Json)}
    (aligned : Aligned (registry.Interchangeable account) members others) :
    emptiesAccount others = emptiesAccount members := by
  have same := aligned.lookup "TransactionType"
  rw [emptiesAccount, emptiesAccount, Bool.eq_iff_iff, beq_iff_eq, beq_iff_eq]
  generalize members.lookup "TransactionType" = found at same
  generalize others.lookup "TransactionType" = other_found at same
  cases same with
  | none => rfl
  | some same => exact same.type here rfl

theorem account_of_mem_expanded {members expanded : List (String × Json)}
    (expansion : expandAddresses members = .ok expanded) {json : Json}
    (member : ("Account", json) ∈ expanded) : "Account" ∈ members.map Prod.fst := by
  rcases exists_mem_of_mem_expanded expansion member with ⟨json, member⟩ | ⟨account, paired⟩
  · exact List.mem_map.mpr ⟨_, member, rfl⟩
  · rcases tagMember?_eq_some paired with ⟨-, named⟩ | ⟨-, named⟩ <;> simp at named

theorem fieldBytes_swap {front back : List (String × Json)}
    (same : registry.Interchangeable account name json other)
    (here : "Account" ∈ (front ++ (name, json) :: back).map Prod.fst → account)
    (plain : ∀ text x, json = .string text → TaggedAddress.decode text ≠ .ok x)
    (other_plain : ∀ text x, other = .string text → TaggedAddress.decode text ≠ .ok x)
    (not_tag : ∀ account, tagMember? account ≠ some name) (signingOnly : Bool) :
    registry.fieldBytes signingOnly (.object (front ++ (name, other) :: back)) =
      registry.fieldBytes signingOnly (.object (front ++ (name, json) :: back)) := by
  have edits := expansionEdits_swap plain other_plain not_tag front back
  cases made : expansionEdits (front ++ (name, json) :: back) with
  | error e =>
    rw [made] at edits
    rw [fieldBytes_object, fieldBytes_object, expandAddresses, expandAddresses, edits, made]
    rfl
  | ok changes =>
    rw [made] at edits
    have expansion := expandAddresses_eq_ok.mpr ⟨changes, made, rfl⟩
    have aligned :=
      (aligned_swap Interchangeable.refl same front back).edited Interchangeable.refl changes
    apply fieldBytes_of_results expansion (expandAddresses_eq_ok.mpr ⟨changes, edits, rfl⟩)
    apply map_wireMembers_of_aligned
    by_cases has_account : account
    · rw [emptiesAccount_of_aligned has_account aligned]
      exact aligned.imp fun _ _ related =>
        ⟨related.1, fun field found => related.2.bytes _ field (wireField?_false found)⟩
    · -- Whether an account is written without its bytes does not matter where there is none.
      refine forall₂_join (S := Eq) aligned (List.forall₂_refl _) ?_
      rintro member in_expanded member' _ ⟨named, related⟩ rfl
      refine ⟨named, fun field found => ?_⟩
      have not_account : field.name ≠ "Account" := by
        rw [(wireField?_eq_some found).2.2]
        intro is_account
        obtain ⟨_, json⟩ := member
        cases is_account
        exact has_account (here (account_of_mem_expanded expansion in_expanded))
      rw [related.bytes _ field (wireField?_false found)]
      exact memberBytes_of_not_account not_account _ _ _

theorem valueOf_code (lawful : registry.Lawful) {field : Field} {enumeration : Enumeration}
    {code : Int32} (found : registry.wireField? false name = some field)
    (named : Enumeration.ofName? name = some enumeration)
    (coded : registry.codeOf enumeration text = .ok code) :
    registry.valueOf field (.number (.integer code.toInt)) =
      registry.valueOf field (.string text) := by
  obtain ⟨-, -, rfl⟩ := wireField?_eq_some found
  obtain ⟨width, typed, narrow⟩ := lawful.enumerated field (known_of_wireField? found).listed
    (by rw [named, Option.isSome_some])
  rw [valueOf_leaf typed, valueOf_leaf typed,
    leafOf_unnamed (by rintro ⟨_, _, -, text⟩; cases text), if_neg (by simp [narrow])]
  simp only [leafOf, named, coded]
  rfl

theorem name_of_enumeration {enumeration : Enumeration}
    (named : Enumeration.ofName? name = some enumeration) : enumeration.name = name := by
  simpa only [beq_iff_eq] using List.find?_some named

theorem not_paired_of_enumeration {enumeration : Enumeration}
    (named : Enumeration.ofName? name = some enumeration) (other : String) :
    tagMember? other ≠ some name ∧ name ≠ "Account" := by
  rw [← name_of_enumeration named]
  constructor
  · intro paired
    rcases tagMember?_eq_some paired with ⟨-, same⟩ | ⟨-, same⟩ <;>
      cases enumeration <;> simp [Enumeration.name] at same
  · cases enumeration <;> decide

theorem plain_of_codeOf (lawful : registry.Lawful) {enumeration : Enumeration} {code : Int32}
    (coded : registry.codeOf enumeration text = .ok code) (x : TaggedAddress) :
    TaggedAddress.decode text ≠ .ok x := by
  intro read
  have long := TaggedAddress.length_of_decode read
  unfold codeOf CodeTable.code? at coded
  split at coded
  · rename_i found
    have brief : text.utf8ByteSize < 47 :=
      lawful.brief enumeration _ (List.mem_reverse.mp (mem_of_lookup found))
    have short := length_le_utf8ByteSize text
    omega
  · cases coded

/-- A name and its code are told apart only where the name empties the account beside it. -/
theorem interchangeable_code (lawful : registry.Lawful) {enumeration : Enumeration} {code : Int32}
    (named : Enumeration.ofName? name = some enumeration)
    (coded : registry.codeOf enumeration text = .ok code)
    (ordinary : ¬ (name = "TransactionType" ∧ text = emptyAccountType ∧ account)) :
    registry.Interchangeable account name (.string text) (.number (.integer code.toInt)) := by
  refine ⟨rfl, fun emptyAccount field found => ?_, fun here type => ?_⟩
  · exact memberBytes_congr (valueOf_code lawful found named coded)
  · refine ⟨nofun, fun empties => ?_⟩
    exact absurd ⟨type, Option.some.inj empties, here⟩ ordinary

variable (registry) in
/-- Two containers have the same bytes wherever they stand. -/
structure SameBody (json other : Json) : Prop where
  untexted : (∀ text, json ≠ .string text) ∧ ∀ text, other ≠ .string text
  fields : ∀ signingOnly, registry.fieldBytes signingOnly other =
    registry.fieldBytes signingOnly json
  item : registry.itemBytes other = registry.itemBytes json
  items : (registry.pack other).arrayBody = (registry.pack json).arrayBody

theorem valueOf_container (same : registry.SameBody json other) {field : Field}
    (container : ∀ type, field.wireType? ≠ some (.leaf type)) :
    registry.valueOf field other = registry.valueOf field json := by
  have unnamed {json : Json} (untexted : ∀ text, json ≠ .string text) :
      ¬ NamesCode field (registry.pack json).json := by
    rw [pack_json]
    rintro ⟨_, text, -, is_text⟩
    exact untexted text is_text
  rcases typed : field.wireType? with _ | type | _ | _
  · have untyped : field.wireType = .error (.unsupportedType field.name field.typeName) := by
      rw [Field.wireType, typed]
    simp only [valueOf, Item.toFieldValue, untyped]
    rfl
  · exact absurd typed (container type)
  · rw [valueOf, valueOf, toFieldValue_unnamed typed (unnamed same.untexted.1),
      toFieldValue_unnamed typed (unnamed same.untexted.2), if_neg (by simp), if_neg (by simp),
      Item.toValue, Item.toValue, objectBody_pack, objectBody_pack, same.fields]
  · rw [valueOf, valueOf, toFieldValue_unnamed typed (unnamed same.untexted.1),
      toFieldValue_unnamed typed (unnamed same.untexted.2), if_neg (by simp), if_neg (by simp),
      Item.toValue, Item.toValue, same.items]

theorem interchangeable_container (same : registry.SameBody json other)
    (container : ∀ type, registry.memberType? name ≠ some (.leaf type))
    (not_type : name ≠ "TransactionType") :
    registry.Interchangeable account name json other := by
  refine ⟨same.fields false, fun emptyAccount field found => ?_, fun _ type => absurd type not_type⟩
  refine memberBytes_congr (valueOf_container same fun type typed => ?_)
  exact container type (memberType?_eq_some.mpr ⟨field, found, typed⟩)

theorem itemBytes_swap {front back : List (String × Json)}
    (same : registry.fieldBytes false other = registry.fieldBytes false json) :
    registry.itemBytes (.object (front ++ (name, other) :: back)) =
      registry.itemBytes (.object (front ++ (name, json) :: back)) := by
  rw [itemBytes, itemBytes, membersOf?, membersOf?, Option.map_some, Option.map_some,
    packMembers_eq_map, packMembers_eq_map]
  rcases front with _ | ⟨first, _ | ⟨second, rest⟩⟩
  · cases back with
    | nil => simp only [List.nil_append, List.map_cons, List.map_nil, elementBytes,
        objectBody_pack, same]
    | cons second rest => simp [elementBytes]
  · simp [elementBytes]
  · simp [elementBytes]

theorem sameBody_object {front back : List (String × Json)}
    (same : registry.Interchangeable account name json other)
    (here : "Account" ∈ (front ++ (name, json) :: back).map Prod.fst → account)
    (plain : ∀ text x, json = .string text → TaggedAddress.decode text ≠ .ok x)
    (other_plain : ∀ text x, other = .string text → TaggedAddress.decode text ≠ .ok x)
    (not_tag : ∀ account, tagMember? account ≠ some name) :
    registry.SameBody (.object (front ++ (name, json) :: back))
      (.object (front ++ (name, other) :: back)) :=
  ⟨⟨nofun, nofun⟩, fieldBytes_swap same here plain other_plain not_tag, itemBytes_swap same.body,
    rfl⟩

theorem sameBody_array {front back : List Json} (same : registry.SameBody json other) :
    registry.SameBody (.array (front ++ json :: back)) (.array (front ++ other :: back)) := by
  refine ⟨⟨nofun, nofun⟩, fun _ => rfl, rfl, ?_⟩
  have kept (part : List Json) : List.Forall₂
      (fun item item' => registry.itemBytes item' = registry.itemBytes item) part part :=
    List.forall₂_same.mpr fun _ _ => rfl
  have each := List.rel_append (kept front) (.cons same.item (kept back))
  rw [arrayBody_pack, arrayBody_pack, mapM_congr (each.imp fun _ _ same => same.symm)]

theorem sameBody_of_respelled (lawful : registry.Lawful) {beside : List (String × Json)}
    (ordinary : ¬ (name = "TransactionType" ∧ text = emptyAccountType ∧
      "Account" ∈ beside.map Prod.fst))
    (respelled : registry.Respelled beside name text json other) :
    registry.SameBody json other := by
  induction respelled with
  | code front back here named coded =>
    subst here
    refine sameBody_object (interchangeable_code lawful named coded ordinary) ?_ ?_ nofun
      fun account => (not_paired_of_enumeration named account).1
    · intro has_account
      have not_account := (not_paired_of_enumeration named name).2
      simpa [not_account.symm] using has_account
    · rintro _ x ⟨⟩
      exact plain_of_codeOf lawful coded x
  | @member front back container json other typed _ ih =>
    have same : registry.Interchangeable True container json other :=
      interchangeable_container ih typed fun type =>
        typed _ (type ▸ memberType?_of_carries lawful.transactionType)
    refine sameBody_object same (fun _ => trivial) ?_ ?_ fun account paired => ?_
    · exact fun text _ is_text => absurd is_text (ih.untexted.1 text)
    · exact fun text _ is_text => absurd is_text (ih.untexted.2 text)
    · exact typed _ (memberType?_of_carries (lawful.accounts account container paired).2)
  | item _ _ _ ih => exact sameBody_array ih

def changedEntry (type : Json) : Json :=
  .object [("AffectedNodes", .array [.object [("ModifiedNode",
    .object [("LedgerEntryType", type), ("Account", .string "")])]])]

def pseudoTransaction (type : Json) : List (String × Json) :=
  [("TransactionType", type), ("Account", .string "")]

theorem checked_codes :
    Enumeration.ofName? "LedgerEntryType" = some .ledgerEntryType ∧
    bundled.codeOf .ledgerEntryType "AccountRoot" = .ok 97 ∧
    bundled.memberType? "AffectedNodes" = some .array ∧
    bundled.memberType? "ModifiedNode" = some .object ∧
    Enumeration.ofName? "TransactionType" = some .transactionType ∧
    bundled.codeOf .transactionType emptyAccountType = .ok 102 := by
  rw [bundled_eq]
  decide +kernel

theorem checked_pseudoTransaction : ∃ type account : Field,
    (bundled.wireField? false "TransactionType" = some type ∧
      bundled.wireField? false "Account" = some account ∧ type.ordinal ≤ account.ordinal) ∧
    (bundled.memberBytes true type (.string emptyAccountType) = .ok [0x12, 0x00, 0x66] ∧
      bundled.memberBytes true account (.string "") = .ok [0x81, 0x00]) ∧
    bundled.memberBytes false type (.number (.integer 102)) = .ok [0x12, 0x00, 0x66] ∧
    bundled.memberBytes false account (.string "") = .ok (0x81 :: 0x14 :: List.replicate 20 0) := by
  refine ⟨⟨"TransactionType", 2, false, true, true, "UInt16", 1⟩,
    ⟨"Account", 1, true, true, true, "AccountID", 8⟩, ?_⟩
  rw [bundled_eq]
  decide +kernel

theorem encode_pseudoTransaction {type account : Field} {json : Json} {front back : Bytes}
    (plain : ∀ text, json = .string text → text.length ≠ 47)
    (found : registry.wireField? false "TransactionType" = some type ∧
      registry.wireField? false "Account" = some account ∧ type.ordinal ≤ account.ordinal)
    (made_type : registry.memberBytes (emptiesAccount (pseudoTransaction json)) type json =
      .ok front)
    (made_account : registry.memberBytes (emptiesAccount (pseudoTransaction json)) account
      (.string "") = .ok back) :
    registry.encode (.object (pseudoTransaction json)) = .ok (front ++ back) := by
  obtain ⟨found_type, found_account, below⟩ := found
  have expansion : expandAddresses (pseudoTransaction json) = .ok (pseudoTransaction json) := by
    refine expandAddresses_of_plain fun name text member x read => ?_
    have long := TaggedAddress.length_of_decode read
    rcases List.mem_cons.mp member with same | member
    · cases same
      exact plain text rfl long
    · cases List.mem_singleton.mp member
      cases long
  exact fieldBytes_pair expansion found_type found_account below made_type made_account

theorem respelled_changedEntry :
    bundled.Respelled [("Account", .string "")] "LedgerEntryType" "AccountRoot"
      (changedEntry (.string "AccountRoot")) (changedEntry (.number (.integer 97))) := by
  obtain ⟨named, coded, array, object, -⟩ := checked_codes
  exact .member [] [] (by simp [array]) (.item [] []
    (.member [] [] (by simp [object]) (.code [] _ rfl named coded)))

/-- Wherever the name of a code stands, the code can stand for it: the bytes stay the same. One
name is an exception where an account stands beside it: that of the pseudo-transaction whose
account is written without its bytes. -/
theorem respelled_code_keeps_bytes {beside : List (String × Json)} {name text : String}
    {json other : Json} (respelled : bundled.Respelled beside name text json other)
    (ordinary : ¬ (name = "TransactionType" ∧ text = emptyAccountType ∧
      "Account" ∈ beside.map Prod.fst)) :
    bundled.encode other = bundled.encode json ∧
      bundled.encodeForSigning other = bundled.encodeForSigning json ∧
      bundled.transactionId other = bundled.transactionId json := by
  have same := sameBody_of_respelled bundled_lawful ordinary respelled
  have encoded : bundled.encode other = bundled.encode json := same.fields false
  refine ⟨encoded, ?_, ?_⟩
  · rw [encodeForSigning, encodeForSigning, same.fields true]
  · rw [transactionId, transactionId, encoded]

theorem encode_changedEntry_code :
    bundled.encode (changedEntry (.number (.integer 97))) =
        bundled.encode (changedEntry (.string "AccountRoot")) ∧
      bundled.encodeForSigning (changedEntry (.number (.integer 97))) =
        bundled.encodeForSigning (changedEntry (.string "AccountRoot")) ∧
      bundled.transactionId (changedEntry (.number (.integer 97))) =
        bundled.transactionId (changedEntry (.string "AccountRoot")) :=
  respelled_code_keeps_bytes respelled_changedEntry (by simp)

/-- The name of the pseudo-transaction empties the account beside it, and its code does not. -/
theorem code_keeps_account :
    bundled.codeOf .transactionType emptyAccountType = .ok 102 ∧
    bundled.Respelled [("Account", .string "")] "TransactionType" emptyAccountType
      (.object (pseudoTransaction (.string emptyAccountType)))
      (.object (pseudoTransaction (.number (.integer 102)))) ∧
    bundled.encode (.object (pseudoTransaction (.string emptyAccountType))) =
      .ok [0x12, 0x00, 0x66, 0x81, 0x00] ∧
    bundled.encode (.object (pseudoTransaction (.number (.integer 102)))) =
      .ok (0x12 :: 0x00 :: 0x66 :: 0x81 :: 0x14 :: List.replicate 20 0) := by
  obtain ⟨-, -, -, -, named, coded⟩ := checked_codes
  obtain ⟨type, account, found, ⟨by_name, emptied⟩, by_code, kept⟩ := checked_pseudoTransaction
  refine ⟨coded, .code [] _ rfl named coded, ?_, ?_⟩
  · refine encode_pseudoTransaction ?_ found by_name emptied
    intro text same
    rw [← Json.string.inj same]
    decide
  · exact encode_pseudoTransaction (by rintro _ ⟨⟩) found by_code kept

end Registry
end LedgerWire
