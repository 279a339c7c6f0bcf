import LedgerWire.Proofs.Composition
import LedgerWire.Proofs.Lawful
import LedgerWire.Signing

namespace LedgerWire

section Kept
variable {keep : String → Bool}

def keepMembers (keep : String → Bool) (members : List (String × Json)) : List (String × Json) :=
  members.filter fun member => keep member.1

theorem lookup_keepMembers {name : String} (kept : keep name = true)
    (members : List (String × Json)) :
    (keepMembers keep members).lookup name = members.lookup name := by
  induction members with
  | nil => rfl
  | cons first rest ih =>
    obtain ⟨other, value⟩ := first
    rw [keepMembers, List.filter_cons, ← keepMembers]
    by_cases same : name = other
    · subst same
      simp [kept]
    · by_cases other_kept : keep other = true
      · simp [other_kept, List.lookup_cons, beq_eq_false_iff_ne.mpr same, ih]
      · simp [other_kept, List.lookup_cons, beq_eq_false_iff_ne.mpr same, ih]

theorem keepMembers_setMember (name : String) (value : Json) (members : List (String × Json)) :
    keepMembers keep (setMember name value members) =
      if keep name then setMember name value (keepMembers keep members)
      else keepMembers keep members := by
  induction members with
  | nil => by_cases kept : keep name = true <;> simp [keepMembers, setMember, kept]
  | cons first rest ih =>
    obtain ⟨other, old⟩ := first
    simp only [keepMembers] at ih
    by_cases same : other = name
    · subst same
      by_cases kept : keep other = true <;> simp [keepMembers, setMember, kept]
    · by_cases kept : keep name = true <;> by_cases other_kept : keep other = true <;>
        simp [keepMembers, setMember, same, kept, other_kept, ih]

theorem keepMembers_edited (edits members : List (String × Json)) :
    keepMembers keep (edited edits members) =
      edited (keepMembers keep edits) (keepMembers keep members) := by
  induction edits generalizing members with
  | nil => rfl
  | cons edit edits ih =>
    rw [edited, List.foldl_cons, ← edited, ih, keepMembers_setMember]
    by_cases kept : keep edit.1 = true
    · simp [keepMembers, edited, kept]
    · simp [keepMembers, edited, kept]

/-- An account and its tag are kept or left out with one another. -/
def KeepsPairs (keep : String → Bool) : Prop :=
  ∀ name tagName, tagMember? name = some tagName → keep name = true ∧ keep tagName = true

theorem addressEdits_keepMembers (pairs : KeepsPairs keep) (members : List (String × Json))
    (name : String) (value : Json) :
    addressEdits (keepMembers keep members) name value = addressEdits members name value := by
  unfold addressEdits
  cases paired : tagMember? name with
  | none => rfl
  | some tagName =>
    have found := lookup_keepMembers (pairs name tagName paired).2 members
    simp only [found]

theorem expands_keepMembers (pairs : KeepsPairs keep) {members edits : List (String × Json)}
    {name : String} {value : Json} :
    Expands (keepMembers keep members) name value edits ↔ Expands members name value edits := by
  have same := addressEdits_keepMembers pairs members name value
  constructor
  · exact fun h => expands_of_addressEdits (same ▸ addressEdits_of_expands h)
  · exact fun h => expands_of_addressEdits (same ▸ addressEdits_of_expands h)

theorem kept_of_expands (pairs : KeepsPairs keep) {members edits : List (String × Json)}
    {name : String} {value : Json} (h : Expands members name value edits) :
    ∀ edit ∈ edits, keep edit.1 = keep name := by
  intro edit member
  cases h with
  | plain => cases member
  | untagged | agreed => rw [List.mem_singleton.mp member]
  | moved _ _ paired =>
    obtain ⟨name_kept, tag_kept⟩ := pairs _ _ paired
    rcases List.mem_cons.mp member with rfl | member
    · rfl
    · rw [List.mem_singleton.mp member, name_kept, tag_kept]

theorem keepMembers_of_expands (pairs : KeepsPairs keep) {members edits : List (String × Json)}
    {name : String} {value : Json} (h : Expands members name value edits) :
    keepMembers keep edits = if keep name then edits else [] := by
  have same := kept_of_expands pairs h
  by_cases kept : keep name = true
  · rw [if_pos kept]
    exact List.filter_eq_self.mpr fun edit member => by rw [same edit member, kept]
  · rw [if_neg kept]
    exact List.filter_eq_nil_iff.mpr fun edit member => by rwa [same edit member]

theorem expansionEdits_keepMembers (pairs : KeepsPairs keep) {members edits : List (String × Json)}
    (h : expansionEdits members = .ok edits) :
    expansionEdits (keepMembers keep members) = .ok (keepMembers keep edits) := by
  obtain ⟨parts, each, rfl⟩ := expansionEdits_eq_ok.mp h
  -- Every edit looks at all the members, so the induction is over a part of them only.
  suffices part_by_part : ∀ {some_members parts}, List.Forall₂
      (fun member part => Expands members member.1 member.2 part) some_members parts →
      ∃ kept, List.Forall₂ (fun member part => Expands members member.1 member.2 part)
        (keepMembers keep some_members) kept ∧ kept.flatten = keepMembers keep parts.flatten by
    obtain ⟨kept, each_kept, whole⟩ := part_by_part each
    rw [← whole]
    exact expansionEdits_eq_ok.mpr ⟨kept, each_kept.imp fun _ _ => (expands_keepMembers pairs).mpr,
      rfl⟩
  intro some_members parts each
  induction each with
  | nil => exact ⟨[], .nil, rfl⟩
  | @cons member part rest parts head _ ih =>
    obtain ⟨kept, each_kept, whole⟩ := ih
    have split : keepMembers keep (part ++ parts.flatten) =
        keepMembers keep part ++ keepMembers keep parts.flatten := List.filter_append ..
    rw [List.flatten_cons, split, keepMembers_of_expands pairs head]
    by_cases member_kept : keep member.1 = true
    · refine ⟨part :: kept, ?_, ?_⟩
      · rw [keepMembers, List.filter_cons, if_pos member_kept]
        exact .cons head each_kept
      · rw [List.flatten_cons, whole, if_pos member_kept]
    · refine ⟨kept, ?_, ?_⟩
      · rwa [keepMembers, List.filter_cons, if_neg member_kept]
      · rw [whole, if_neg member_kept, List.nil_append]

theorem expandAddresses_keepMembers (pairs : KeepsPairs keep)
    {members expanded : List (String × Json)} (h : expandAddresses members = .ok expanded) :
    expandAddresses (keepMembers keep members) = .ok (keepMembers keep expanded) := by
  obtain ⟨edits, made, rfl⟩ := expandAddresses_eq_ok.mp h
  exact expandAddresses_eq_ok.mpr
    ⟨_, expansionEdits_keepMembers pairs made, keepMembers_edited edits members⟩

/-- Where the kept members can be expanded and all of them cannot, a member that is not kept is a
tagged address. -/
theorem tagged_of_expandAddresses_error (pairs : KeepsPairs keep)
    {members expanded : List (String × Json)} {e : Error}
    (kept : expandAddresses (keepMembers keep members) = .ok expanded)
    (failed : expandAddresses members = .error e) :
    ∃ name text x tag, (name, .string text) ∈ members ∧ keep name = false ∧
      TaggedAddress.decode text = .ok x ∧ x.tag = some tag := by
  obtain ⟨⟨name, value⟩, member, refused⟩ :
      ∃ member ∈ members, addressEdits members member.1 member.2 = .error e := by
    have unfolded : expandAddresses members = (do
        let parts ← members.mapM fun member => addressEdits members member.1 member.2
        return edited parts.flatten members) := by
      rw [expandAddresses, expansionEdits, bind_assoc]
      rfl
    rw [unfolded] at failed
    cases each : members.mapM fun member => addressEdits members member.1 member.2 with
    | error fault =>
      rw [each] at failed
      cases failed
      exact exists_error_of_mapM each
    | ok parts =>
      rw [each] at failed
      cases failed
  obtain ⟨text, x, tag, rfl, read, tagged⟩ := tagged_of_addressEdits_error refused
  refine ⟨name, text, x, tag, member, ?_, read, tagged⟩
  by_contra name_kept
  rw [Bool.not_eq_false] at name_kept
  obtain ⟨edits, expansion, -⟩ := expandAddresses_eq_ok.mp kept
  obtain ⟨parts, each, -⟩ := expansionEdits_eq_ok.mp expansion
  obtain ⟨part, -, expands⟩ := exists_right_of_mem each (List.mem_filter.mpr ⟨member, name_kept⟩)
  rw [addressEdits_of_expands ((expands_keepMembers pairs).mp expands)] at refused
  cases refused

end Kept

namespace Registry
variable (registry : Registry)

def signs (name : String) : Bool :=
  (registry.field? name).all Field.signing

/-- A value without the members, at its top, that signatures leave out. -/
def strip : Json → Json
  | .object members => .object (keepMembers registry.signs members)
  | json => json

variable {registry}

theorem signs_of_carries {name : String} {type : WireType}
    (h : registry.carries name type = true) : registry.signs name = true := by
  unfold carries at h
  unfold signs
  cases found : registry.field? name with
  | none => rfl
  | some field =>
    simp only [found, Option.any_some, Bool.and_eq_true] at h
    exact h.1.2

theorem Lawful.keepsPairs (lawful : registry.Lawful) : KeepsPairs registry.signs := by
  intro name tagName paired
  obtain ⟨account, tag⟩ := lawful.accounts name tagName paired
  exact ⟨signs_of_carries account, signs_of_carries tag⟩

theorem wireMembers_keepMembers (members : List (String × Json)) :
    registry.wireMembers false (keepMembers registry.signs members) =
      registry.wireMembers true members := by
  rw [wireMembers, wireMembers, keepMembers, List.filterMap_filter]
  congr 2
  funext member
  unfold wireField?
  by_cases signed : registry.signs member.1 = true
  · rw [if_pos signed]
    unfold signs at signed
    cases found : registry.field? member.1 with
    | none => rfl
    | some field => simp_all [Option.filter]
  · rw [if_neg signed]
    unfold signs at signed
    cases found : registry.field? member.1 with
    | none => simp [found] at signed
    | some field => simp_all [Option.filter]

theorem fieldBytes_strip (lawful : registry.Lawful) {members expanded : List (String × Json)}
    (h : expandAddresses members = .ok expanded) :
    registry.fieldBytes true (.object members) =
      registry.fieldBytes false (registry.strip (.object members)) := by
  have type := lookup_keepMembers (signs_of_carries lawful.transactionType) expanded
  rw [strip, fieldBytes_object, fieldBytes_object, h,
    expandAddresses_keepMembers lawful.keepsPairs h]
  have emptied :
      emptiesAccount (keepMembers registry.signs expanded) = emptiesAccount expanded := by
    rw [emptiesAccount, type, emptiesAccount]
  simp only [bind, Except.bind, wireMembers_keepMembers, emptied]

theorem encode_strip_of_fieldBytes (lawful : registry.Lawful) {v : Json} {body : Bytes}
    (h : registry.fieldBytes true v = .ok body) :
    registry.encode (registry.strip v) = .ok body := by
  obtain ⟨members, expanded, -, rfl, expansion, -⟩ := registry.fieldBytes_eq_ok.mp h
  rw [encode, ← fieldBytes_strip lawful expansion, h]

theorem encodeForSigning_eq_ok_iff {json : Json} {bytes : Bytes} :
    registry.encodeForSigning json = .ok bytes ↔
      ∃ body, registry.fieldBytes true json = .ok body ∧ bytes = Purpose.signing.bytes ++ body := by
  rw [encodeForSigning, bind_eq_ok]
  simp only [pure, Except.pure, Except.ok.injEq, eq_comm]

theorem bind_string?_eq_some {json : Option Json} {text : String} :
    json.bind Json.string? = some text ↔ json = some (.string text) := by
  rcases json with _ | json
  · exact ⟨nofun, nofun⟩
  · cases json <;> simp [Json.string?]

theorem encodeForMultisigning_eq_ok_iff {json : Json} {signer : String} {bytes : Bytes} :
    registry.encodeForMultisigning json signer = .ok bytes ↔
      json.get? "SigningPubKey" = some (.string "") ∧ ∃ account body,
        AccountId.ofText signer = .ok account ∧ registry.fieldBytes true json = .ok body ∧
        bytes = Purpose.multisigning.bytes ++ body ++ account.bytes := by
  rw [encodeForMultisigning, refuse_eq_ok, not_not, bind_string?_eq_some, bind_eq_ok]
  refine and_congr_right fun _ => exists_congr fun account => ?_
  rw [bind_eq_ok]
  simp only [pure, Except.pure, Except.ok.injEq, exists_and_left, eq_comm]

theorem encodeForSigning_eq_ok (lawful : registry.Lawful) {v : Json} {bytes : Bytes}
    (h : registry.encodeForSigning v = .ok bytes) :
    ∃ body, registry.encode (registry.strip v) = .ok body ∧
      bytes = [0x53, 0x54, 0x58, 0x00] ++ body := by
  obtain ⟨body, made, rfl⟩ := encodeForSigning_eq_ok_iff.mp h
  exact ⟨body, encode_strip_of_fieldBytes lawful made, rfl⟩

theorem encodeForMultisigning_eq_ok (lawful : registry.Lawful) {v : Json} {signer : String}
    {bytes : Bytes} (h : registry.encodeForMultisigning v signer = .ok bytes) :
    ∃ body account, registry.encode (registry.strip v) = .ok body ∧
      AccountId.ofText signer = .ok account ∧
      bytes = [0x53, 0x4D, 0x54, 0x00] ++ body ++ account.bytes := by
  obtain ⟨-, account, body, read, made, rfl⟩ := encodeForMultisigning_eq_ok_iff.mp h
  exact ⟨body, account, encode_strip_of_fieldBytes lawful made, read, rfl⟩

theorem tagged_of_encodeForSigning_error (lawful : registry.Lawful) {v : Json} {body : Bytes}
    {e : Error} (made : registry.encode (registry.strip v) = .ok body)
    (failed : registry.encodeForSigning v = .error e) :
    ∃ members name text x tag, v = .object members ∧ (name, .string text) ∈ members ∧
      registry.signs name = false ∧ TaggedAddress.decode text = .ok x ∧ x.tag = some tag := by
  cases v with
  | object members =>
    cases expansion : expandAddresses members with
    | error fault =>
      obtain ⟨_, _, _, object, kept, -⟩ := registry.fieldBytes_eq_ok.mp made
      cases object
      obtain ⟨name, text, x, tag, tagged⟩ :=
        tagged_of_expandAddresses_error lawful.keepsPairs kept expansion
      exact ⟨members, name, text, x, tag, rfl, tagged⟩
    | ok expanded =>
      rw [encodeForSigning, fieldBytes_strip lawful expansion, ← encode, made] at failed
      cases failed
  | _ => cases made

def signedWith (signature : String) : List (String × Json) :=
  [("SigningPubKey", .string ""), ("TxnSignature", .string signature)]

def taggedText : String := TaggedAddress.encode ⟨.zero, some 7, .main⟩

theorem checked_signedWith :
    bundled.encodeForSigning (.object (signedWith "AB")) =
      .ok [0x53, 0x54, 0x58, 0x00, 0x73, 0x00] ∧
    bundled.encodeForMultisigning (.object (signedWith "AB")) "rrrrrrrrrrrrrrrrrrrrrhoLvTp" =
      .ok ([0x53, 0x4D, 0x54, 0x00, 0x73, 0x00] ++ List.replicate 20 0) ∧
    bundled.encode (bundled.strip (.object (signedWith taggedText))) = .ok [0x73, 0x00] ∧
    bundled.encodeForSigning (.object (signedWith taggedText)) =
      .error (.tagNotAllowed "TxnSignature") := by
  rw [bundled_eq]
  decide +kernel

/-- Signatures are made over the bytes of the stripped object: its bytes are the same for all
objects that differ in other members only, and leaving those out makes an object signable only by
leaving out a tagged address. -/
theorem signing_scope (v : Json) :
    (∀ bytes, bundled.encodeForSigning v = .ok bytes →
      ∃ body, bundled.encode (bundled.strip v) = .ok body ∧
        bytes = [0x53, 0x54, 0x58, 0x00] ++ body) ∧
    (∀ signer bytes, bundled.encodeForMultisigning v signer = .ok bytes →
      ∃ body account, bundled.encode (bundled.strip v) = .ok body ∧
        AccountId.ofText signer = .ok account ∧
        bytes = [0x53, 0x4D, 0x54, 0x00] ++ body ++ account.bytes) ∧
    (∀ other, bundled.strip v = bundled.strip other →
      (∀ bytes bytes', bundled.encodeForSigning v = .ok bytes →
        bundled.encodeForSigning other = .ok bytes' → bytes = bytes') ∧
      (∀ signer bytes bytes', bundled.encodeForMultisigning v signer = .ok bytes →
        bundled.encodeForMultisigning other signer = .ok bytes' → bytes = bytes')) ∧
    (∀ body e, bundled.encode (bundled.strip v) = .ok body →
      bundled.encodeForSigning v = .error e →
      ∃ members name text x tag, v = .object members ∧ (name, .string text) ∈ members ∧
        bundled.signs name = false ∧ TaggedAddress.decode text = .ok x ∧ x.tag = some tag) := by
  refine ⟨fun bytes => encodeForSigning_eq_ok bundled_lawful,
    fun signer bytes => encodeForMultisigning_eq_ok bundled_lawful, fun other same => ⟨?_, ?_⟩,
    fun body e => tagged_of_encodeForSigning_error bundled_lawful⟩
  · intro bytes bytes' first second
    obtain ⟨body, made, rfl⟩ := encodeForSigning_eq_ok bundled_lawful first
    obtain ⟨body', made', rfl⟩ := encodeForSigning_eq_ok bundled_lawful second
    rw [same, made'] at made
    cases made
    rfl
  · intro signer bytes bytes' first second
    obtain ⟨body, account, made, read, rfl⟩ := encodeForMultisigning_eq_ok bundled_lawful first
    obtain ⟨body', account', made', read', rfl⟩ :=
      encodeForMultisigning_eq_ok bundled_lawful second
    rw [same, made'] at made
    rw [read'] at read
    cases made
    cases read
    rfl

/-- A signature does not count among the bytes that are signed. An address with a tag in its place
keeps them from being signed. -/
theorem signing_scope_signedWith :
    (bundled.encodeForSigning (.object (signedWith "AB")) =
        .ok [0x53, 0x54, 0x58, 0x00, 0x73, 0x00] ∧
      ∃ body, bundled.encode (bundled.strip (.object (signedWith "AB"))) = .ok body ∧
        [0x53, 0x54, 0x58, 0x00, 0x73, 0x00] = [0x53, 0x54, 0x58, 0x00] ++ body) ∧
    (bundled.encodeForMultisigning (.object (signedWith "AB")) "rrrrrrrrrrrrrrrrrrrrrhoLvTp" =
        .ok ([0x53, 0x4D, 0x54, 0x00, 0x73, 0x00] ++ List.replicate 20 0) ∧
      ∃ body account, bundled.encode (bundled.strip (.object (signedWith "AB"))) = .ok body ∧
        AccountId.ofText "rrrrrrrrrrrrrrrrrrrrrhoLvTp" = .ok account ∧
        [0x53, 0x4D, 0x54, 0x00, 0x73, 0x00] ++ List.replicate 20 0 =
          [0x53, 0x4D, 0x54, 0x00] ++ body ++ account.bytes) ∧
    bundled.encodeForSigning (.object (signedWith taggedText)) =
        .error (.tagNotAllowed "TxnSignature") ∧
      ∃ name text x tag, (name, .string text) ∈ signedWith taggedText ∧
        bundled.signs name = false ∧ TaggedAddress.decode text = .ok x ∧ x.tag = some tag := by
  obtain ⟨signed, multisigned, stripped, refused⟩ := checked_signedWith
  obtain ⟨single, multiple, -, -⟩ := signing_scope (.object (signedWith "AB"))
  obtain ⟨-, -, -, untaggable⟩ := signing_scope (.object (signedWith taggedText))
  obtain ⟨_, name, text, x, tag, ⟨⟩, member⟩ := untaggable _ _ stripped refused
  exact ⟨⟨signed, single _ signed⟩, ⟨multisigned, multiple _ _ multisigned⟩, refused, name, text, x,
    tag, member⟩

end Registry
end LedgerWire
