import LedgerWire.Proofs.Address
import LedgerWire.Proofs.Expansion

namespace LedgerWire

/-- The accounts that may carry a tag, each with the member that the tag moves to. -/
inductive Paired : String → String → Prop
  | account : Paired "Account" "SourceTag"
  | destination : Paired "Destination" "DestinationTag"

/-- What a tag may be given as beside a packed one: as the same integer, or as decimal digits that
spell it, a plus in front of them allowed. -/
inductive SaysTag (tag : UInt32) : Json → Prop
  | integer : SaysTag tag (.ofNat tag.toNat)
  | digits {text : String} {digits : List Char} :
      text.toList = digits ∨ text.toList = '+' :: digits → Text.isDigits digits = true →
      Text.natOfDigits digits = tag.toNat → SaysTag tag (.string text)

/-- A member that its object may not have: an address with a tag where no tag belongs, or with
another tag than the object gives it elsewhere. -/
inductive Offends (members : List (String × Json)) : String × Json → Error → Prop
  | misplaced {name text : String} {x : TaggedAddress} {tag : UInt32} :
      TaggedAddress.decode text = .ok x → x.tag = some tag →
      name ≠ "Account" → name ≠ "Destination" →
      Offends members (name, .string text) (.tagNotAllowed name)
  | contradicted {name text tagName : String} {x : TaggedAddress} {tag : UInt32} {explicit : Json} :
      TaggedAddress.decode text = .ok x → x.tag = some tag → Paired name tagName →
      members.lookup tagName = some explicit → explicit ≠ .null → ¬ SaysTag tag explicit →
      Offends members (name, .string text) (.tagConflict name tag tagName (explicitText explicit))

def FirstOffence (members : List (String × Json)) (e : Error) : Prop :=
  ∃ front member back, members = front ++ member :: back ∧
    (∀ earlier ∈ front, ∀ other, ¬ Offends members earlier other) ∧ Offends members member e

/-- The tag members that an object gains: one for each tag that moves to a member it lacks, in the
order of their accounts. -/
structure Gains (members : List (String × Json)) (added : List String) : Prop where
  order : added.Sublist ((members.map Prod.fst).filterMap tagMember?)
  mem_iff : ∀ name, name ∈ added ↔ members.lookup name = none ∧ ∃ tag, Moves members name tag

/-- An object and what it becomes when its tagged addresses are expanded. -/
structure Rewritten (members expanded : List (String × Json)) : Prop where
  names : ∃ added, Gains members added ∧
    expanded.map Prod.fst = members.map Prod.fst ++ added
  address : ∀ name text x, members.lookup name = some (.string text) →
    TaggedAddress.decode text = .ok x → expanded.lookup name = some (.string x.account.address)
  tag : ∀ name tag, Moves members name tag → expanded.lookup name = some (.ofNat tag.toNat)
  other : ∀ name json, members.lookup name = some json →
    (∀ text x, json = .string text → TaggedAddress.decode text ≠ .ok x) →
    (∀ tag, ¬ Moves members name tag) → expanded.lookup name = some json

theorem tagMember?_eq_some_iff {name tagName : String} :
    tagMember? name = some tagName ↔ Paired name tagName := by
  constructor
  · intro h
    rcases tagMember?_eq_some h with ⟨rfl, rfl⟩ | ⟨rfl, rfl⟩
    · exact .account
    · exact .destination
  · intro h
    cases h <;> rfl

theorem tagMember?_eq_none_iff {name : String} :
    tagMember? name = none ↔ name ≠ "Account" ∧ name ≠ "Destination" := by
  simp [tagMember?, List.lookup_eq_none_iff]

theorem ofNat_eq_iff {n : Nat} {tag : UInt32} :
    (n < capacity 4 ∧ UInt32.ofNat n = tag) ↔ n = tag.toNat := by
  have size : capacity 4 = UInt32.size := rfl
  constructor
  · rintro ⟨fits, rfl⟩
    exact (UInt32.toNat_ofNat_of_lt (size ▸ fits)).symm
  · rintro rfl
    exact ⟨size ▸ tag.toNat_lt, UInt32.ofNat_toNat⟩

theorem tagOfText?_eq_some_iff {text : String} {tag : UInt32} :
    tagOfText? text = some tag ↔ ∃ digits, (text.toList = digits ∨ text.toList = '+' :: digits) ∧
      Text.isDigits digits = true ∧ Text.natOfDigits digits = tag.toNat := by
  have plus (digits : List Char) : Text.isDigits ('+' :: digits) = false := by
    simp [Text.isDigits, Char.isDigit]
  have value (digits : List Char) :
      (if Text.isDigits digits && Text.natOfDigits digits < capacity 4 then
        some (UInt32.ofNat (Text.natOfDigits digits)) else none) = some tag ↔
      Text.isDigits digits = true ∧ Text.natOfDigits digits = tag.toNat := by
    rw [← ofNat_eq_iff]
    simp [and_assoc]
  unfold tagOfText?
  split
  · rename_i rest signed
    refine (value rest).trans ⟨fun spells => ⟨rest, .inr signed, spells⟩, ?_⟩
    rintro ⟨_, rfl | same, spells⟩
    · rw [signed, plus] at spells
      cases spells.1
    · rw [signed] at same
      cases same
      exact spells
  · rename_i unsigned
    refine (value text.toList).trans ⟨fun spells => ⟨_, .inl rfl, spells⟩, ?_⟩
    rintro ⟨_, rfl | signed, spells⟩
    · exact spells
    · exact absurd signed (unsigned _)

theorem tagAgrees_iff {tag : UInt32} {explicit : Json} :
    tagAgrees tag explicit = true ↔ SaysTag tag explicit := by
  constructor
  · intro agrees
    unfold tagAgrees at agrees
    split at agrees
    · obtain rfl := beq_iff_eq.mp agrees
      exact .integer
    · obtain ⟨digits, spelled, each, value⟩ := tagOfText?_eq_some_iff.mp (beq_iff_eq.mp agrees)
      exact .digits spelled each value
    · cases agrees
  · intro agrees
    cases agrees with
    | integer => simp [tagAgrees, Json.ofNat]
    | digits spelled each value =>
      exact beq_iff_eq.mpr (tagOfText?_eq_some_iff.mpr ⟨_, spelled, each, value⟩)

section Refused
variable {members : List (String × Json)}

theorem addressEdits_eq_error {name : String} {value : Json} {e : Error} :
    addressEdits members name value = .error e ↔ Offends members (name, value) e := by
  constructor
  · intro failed
    obtain ⟨text, x, tag, rfl, read, tagged⟩ := tagged_of_addressEdits_error failed
    cases paired : tagMember? name with
    | none =>
      obtain ⟨not_account, not_destination⟩ := tagMember?_eq_none_iff.mp paired
      simp only [addressEdits, read, tagged, paired] at failed
      cases failed
      exact .misplaced read tagged not_account not_destination
    | some tagName =>
      rw [addressEdits_tagged read tagged paired] at failed
      split at failed
      · cases failed
      · cases failed
      · rename_i explicit filled found
        split at failed
        · cases failed
        · rename_i disagrees
          cases failed
          exact .contradicted read tagged (tagMember?_eq_some_iff.mp paired) found filled
            (disagrees ∘ tagAgrees_iff.mpr)
  · intro offends
    cases offends with
    | misplaced read tagged not_account not_destination =>
      have paired := tagMember?_eq_none_iff.mpr ⟨not_account, not_destination⟩
      simp only [addressEdits, read, tagged, paired]
    | contradicted read tagged paired found filled silent =>
      rw [addressEdits_tagged read tagged (tagMember?_eq_some_iff.mpr paired), found]
      simp [mt tagAgrees_iff.mp silent]

theorem expands_iff_not_offends {member : String × Json} :
    (∃ part, Expands members member.1 member.2 part) ↔ ∀ e, ¬ Offends members member e := by
  constructor
  · rintro ⟨part, expands⟩ e offends
    have made := addressEdits_of_expands expands
    rw [addressEdits_eq_error.mpr offends] at made
    cases made
  · intro clean
    cases made : addressEdits members member.1 member.2 with
    | ok part => exact ⟨part, expands_of_addressEdits made⟩
    | error e => exact absurd (addressEdits_eq_error.mp made) (clean e)

theorem expandAddresses_eq_error {e : Error} :
    expandAddresses members = .error e ↔ FirstOffence members e := by
  have edits : expandAddresses members = .error e ↔
      (members.mapM fun member => addressEdits members member.1 member.2) = .error e := by
    rw [expandAddresses, bind_pure_eq_error, expansionEdits, bind_pure_eq_error]
  have clean (member : String × Json) :
      (∃ part, addressEdits members member.1 member.2 = .ok part) ↔
        ∀ e, ¬ Offends members member e := by
    rw [← expands_iff_not_offends]
    exact exists_congr fun _ => ⟨expands_of_addressEdits, addressEdits_of_expands⟩
  rw [edits, mapM_eq_error]
  simp only [clean, addressEdits_eq_error, FirstOffence]

theorem exists_expanded_iff :
    (∃ expanded, expandAddresses members = .ok expanded) ↔
      ∀ member ∈ members, ∀ e, ¬ Offends members member e := by
  constructor
  · rintro ⟨expanded, made⟩ member present
    exact expands_iff_not_offends.mp (expands_of_mem made present)
  · exact fun clean => expandAddresses_of_expands fun member present =>
      expands_iff_not_offends.mpr (clean member present)

end Refused

section Names
variable {α : Type} {members others : List (String × α)}

theorem lookup_eq_none_iff_names {name : String} :
    members.lookup name = none ↔ name ∉ members.map Prod.fst := by
  rw [List.lookup_eq_none_iff]
  simp only [List.mem_map, not_exists, not_and, bne_iff_ne]
  exact forall₂_congr fun member _ => not_congr eq_comm

theorem names_setMember {name : String} {value : α} :
    (setMember name value members).map Prod.fst =
      if name ∈ members.map Prod.fst then members.map Prod.fst
      else members.map Prod.fst ++ [name] := by
  induction members with
  | nil => simp [setMember]
  | cons first rest ih =>
    obtain ⟨other, old⟩ := first
    rw [setMember]
    by_cases same : other = name
    · simp [same]
    · rw [if_neg same, List.map_cons, List.map_cons, ih]
      by_cases present : name ∈ rest.map Prod.fst
      · rw [if_pos present, if_pos (List.mem_cons_of_mem _ present)]
      · have absent : name ∉ other :: rest.map Prod.fst := by
          simp [Ne.symm same, present]
        rw [if_neg present, if_neg absent, List.cons_append]

theorem names_edited (edits members : List (String × α)) :
    ∃ added, (edited edits members).map Prod.fst = members.map Prod.fst ++ added ∧
      added.Sublist (edits.map Prod.fst) ∧
      ∀ name, name ∈ added ↔ name ∈ edits.map Prod.fst ∧ name ∉ members.map Prod.fst := by
  induction edits generalizing members with
  | nil => exact ⟨[], by simp [edited], .slnil, by simp⟩
  | cons edit edits ih =>
    obtain ⟨added, names, order, mem_iff⟩ := @ih (setMember edit.1 edit.2 members)
    rw [names_setMember] at names mem_iff
    by_cases present : edit.1 ∈ members.map Prod.fst
    · rw [if_pos present] at names mem_iff
      refine ⟨added, names, order.cons _, fun name => ?_⟩
      rw [mem_iff, List.map_cons, List.mem_cons]
      refine ⟨fun new => ⟨.inr new.1, new.2⟩, ?_⟩
      rintro ⟨rfl | edit, absent⟩
      · exact absurd present absent
      · exact ⟨edit, absent⟩
    · rw [if_neg present] at names mem_iff
      refine ⟨edit.1 :: added, by rw [edited, List.foldl_cons, ← edited, names]; simp,
        order.cons_cons _, fun name => ?_⟩
      rw [List.mem_cons, mem_iff, List.map_cons, List.mem_cons, List.mem_append,
        List.mem_singleton]
      by_cases here : name = edit.1
      · simp [here, present]
      · simp [here]

theorem eq_of_lookup (distinct : DistinctNames members)
    (names : members.map Prod.fst = others.map Prod.fst)
    (same : ∀ name ∈ members.map Prod.fst, members.lookup name = others.lookup name) :
    members = others := by
  induction members generalizing others with
  | nil => exact (List.map_eq_nil_iff.mp names.symm).symm
  | cons first rest ih =>
    obtain ⟨other, others, rfl⟩ := List.exists_cons_of_ne_nil
      (l := others) (by rintro rfl; cases names)
    obtain ⟨name, value⟩ := first
    obtain ⟨_, value'⟩ := other
    obtain ⟨rfl, tail_names⟩ := List.cons.inj names
    obtain ⟨absent, distinct⟩ := List.nodup_cons.mp distinct
    have here := same name List.mem_cons_self
    simp only [List.lookup_cons_self, Option.some.injEq] at here
    obtain rfl := here
    congr 1
    refine ih distinct tail_names fun later member => ?_
    have different : later ≠ name := by
      rintro rfl
      exact absent member
    simpa [List.lookup_cons, beq_eq_false_iff_ne.mpr different] using
      same later (List.mem_cons_of_mem _ member)

end Names

theorem eq_of_sublist {α : Type} {whole part other : List α} (distinct : whole.Nodup)
    (order : part.Sublist whole) (other_order : other.Sublist whole)
    (same : ∀ a, a ∈ part ↔ a ∈ other) : part = other := by
  induction order generalizing other with
  | slnil => exact (List.sublist_nil.mp other_order).symm
  | @cons part whole a order ih =>
    obtain ⟨absent, distinct⟩ := List.nodup_cons.mp distinct
    cases other_order with
    | cons _ other_order => exact ih distinct other_order same
    | cons_cons => exact absurd (order.subset ((same a).mpr List.mem_cons_self)) absent
  | @cons_cons part whole a order ih =>
    obtain ⟨absent, distinct⟩ := List.nodup_cons.mp distinct
    cases other_order with
    | cons _ other_order =>
      exact absurd (other_order.subset ((same a).mp List.mem_cons_self)) absent
    | @cons_cons other _ _ other_order =>
      rw [ih distinct other_order fun b => ?_]
      by_cases first : b = a
      · rw [first]
        exact iff_of_false (absent ∘ fun member => order.subset member)
          (absent ∘ fun member => other_order.subset member)
      · simpa [first] using same b

theorem new_names_of_expands {members part : List (String × Json)} {name : String} {value : Json}
    {new : String → Bool} (expands : Expands members name value part) (old : new name = false) :
    ((part.map Prod.fst).filter new).Sublist (tagMember? name).toList := by
  cases expands with
  | plain => exact List.nil_sublist _
  | untagged | agreed => simp [old]
  | moved _ _ paired =>
    simp [List.filter_cons, old, paired]

theorem new_names_of_edits {members some : List (String × Json)}
    {parts : List (List (String × Json))} {new : String → Bool}
    (each : List.Forall₂ (fun member part => Expands members member.1 member.2 part) some parts)
    (old : ∀ member ∈ some, new member.1 = false) :
    ((parts.flatten.map Prod.fst).filter new).Sublist
      ((some.map Prod.fst).filterMap tagMember?) := by
  rw [List.filterMap_eq_flatMap_toList]
  induction each with
  | nil => exact .slnil
  | cons expands _ ih =>
    rw [List.flatten_cons, List.map_append, List.filter_append, List.map_cons, List.flatMap_cons]
    obtain ⟨head, rest⟩ := List.forall_mem_cons.mp old
    exact (new_names_of_expands expands head).append (ih rest)

section Expanded
variable {members expanded : List (String × Json)}

theorem gains_of_expandAddresses (distinct : DistinctNames members)
    (made : expandAddresses members = .ok expanded) :
    ∃ added, Gains members added ∧ expanded.map Prod.fst = members.map Prod.fst ++ added := by
  obtain ⟨edits, edits_made, rfl⟩ := expandAddresses_eq_ok.mp made
  obtain ⟨added, names, order, mem_iff⟩ := names_edited edits members
  refine ⟨added, ⟨?_, fun name => ?_⟩, names⟩
  · obtain ⟨parts, each, rfl⟩ := expansionEdits_eq_ok.mp edits_made
    have fresh : added.filter (fun name => decide (name ∉ members.map Prod.fst)) = added :=
      List.filter_eq_self.mpr fun name member => decide_eq_true ((mem_iff name).mp member).2
    rw [← fresh]
    refine (order.filter _).trans (new_names_of_edits each fun member present => ?_)
    simpa using ⟨member.2, present⟩
  · rw [mem_iff, lookup_eq_none_iff_names]
    constructor
    -- An address is edited under the name it has, so that a name that is not there is a tag's.
    · rintro ⟨edited, absent⟩
      refine ⟨absent, ?_⟩
      obtain ⟨edit, member, rfl⟩ := List.mem_map.mp edited
      rcases edit_cases distinct edits_made member with ⟨text, x, found, -⟩ | ⟨tag, moves, -⟩
      · rw [lookup_eq_none_iff_names.mpr absent] at found
        cases found
      · exact ⟨tag, moves⟩
    · rintro ⟨absent, tag, moves⟩
      exact ⟨List.mem_map.mpr ⟨_, tag_mem_edits edits_made moves, rfl⟩, absent⟩

theorem rewritten_of_expandAddresses (distinct : DistinctNames members)
    (made : expandAddresses members = .ok expanded) : Rewritten members expanded := by
  refine ⟨gains_of_expandAddresses distinct made, ?_,
    fun name tag => lookup_expanded_of_moves made distinct, ?_⟩
  · intro name text x found read
    rw [lookup_expanded made distinct, found, Option.map_some, Json.classic, read]
    · rfl
    · intro tag moves
      cases moves.eq_null found
  · intro name json found plain stays
    rw [lookup_expanded made distinct stays, found, Option.map_some, Json.classic_of_plain plain]

theorem nodup_tagMembers (distinct : DistinctNames members) :
    ((members.map Prod.fst).filterMap tagMember?).Nodup :=
  List.Nodup.filterMap (fun _ _ _ paired same => tagMember?_inj paired same) distinct

theorem Gains.unique (distinct : DistinctNames members) {added other : List String}
    (gains : Gains members added) (also : Gains members other) : added = other :=
  eq_of_sublist (nodup_tagMembers distinct) gains.order also.order fun name =>
    (gains.mem_iff name).trans (also.mem_iff name).symm

/-- An object becomes one other: what is said of the expanded object leaves nothing open. -/
theorem Rewritten.unique (distinct : DistinctNames members) {other : List (String × Json)}
    (expanded_distinct : DistinctNames expanded)
    (rewritten : Rewritten members expanded) (also : Rewritten members other) :
    expanded = other := by
  obtain ⟨added, gains, names⟩ := rewritten.names
  obtain ⟨others, also_gains, other_names⟩ := also.names
  rw [← gains.unique distinct also_gains] at other_names
  refine eq_of_lookup expanded_distinct (names.trans other_names.symm) fun name member => ?_
  by_cases moves : ∃ tag, Moves members name tag
  · obtain ⟨tag, moves⟩ := moves
    rw [rewritten.tag name tag moves, also.tag name tag moves]
  · rw [names, List.mem_append] at member
    have present := member.resolve_right fun gained => moves ((gains.mem_iff name).mp gained).2
    cases found : members.lookup name with
    | none => exact absurd present (lookup_eq_none_iff_names.mp found)
    | some json =>
      rcases plain_or_tagged json with plain | ⟨text, x, rfl, read⟩
      · have stays : ∀ tag, ¬ Moves members name tag := fun tag moved => moves ⟨tag, moved⟩
        rw [rewritten.other name json found plain stays, also.other name json found plain stays]
      · rw [rewritten.address name text x found read, also.address name text x found read]

theorem classic_ne_tagged {json : Json} {text : String} {x : TaggedAddress}
    (classic : json.classic = .string text) : TaggedAddress.decode text ≠ .ok x := by
  intro read
  rcases plain_or_tagged json with plain | ⟨old, y, rfl, old_read⟩
  · rw [Json.classic_of_plain plain] at classic
    exact plain text x classic read
  · rw [Json.classic, old_read] at classic
    cases classic
    exact y.account.decode_address_ne_ok x read

theorem expandAddresses_expanded (distinct : DistinctNames members)
    (made : expandAddresses members = .ok expanded) : expandAddresses expanded = .ok expanded := by
  refine expandAddresses_of_plain fun name text member x read => ?_
  have value := lookup_of_mem (distinctNames_expanded made distinct) member
  by_cases moves : ∃ tag, Moves members name tag
  · obtain ⟨tag, moves⟩ := moves
    rw [lookup_expanded_of_moves made distinct moves] at value
    cases value
  · rw [lookup_expanded made distinct fun tag moved => moves ⟨tag, moved⟩] at value
    obtain ⟨json, -, classic⟩ := Option.map_eq_some_iff.mp value
    exact classic_ne_tagged classic read

end Expanded

/-- An object is refused exactly for a member that offends, with the error of the first that does.
Any other becomes the one object that it can be rewritten as, and that is left as it is. -/
theorem expandAddresses_spec {members : List (String × Json)} (distinct : DistinctNames members) :
    (∀ e, expandAddresses members = .error e ↔ FirstOffence members e) ∧
    ((∃ e, expandAddresses members = .error e) ↔
      ∃ member ∈ members, ∃ e, Offends members member e) ∧
    (∀ expanded, expandAddresses members = .ok expanded ↔
      (∀ member ∈ members, ∀ e, ¬ Offends members member e) ∧ Rewritten members expanded) ∧
    ∀ expanded, expandAddresses members = .ok expanded →
      expandAddresses expanded = .ok expanded := by
  refine ⟨fun _ => expandAddresses_eq_error, ⟨?_, ?_⟩, fun expanded => ⟨fun made => ?_, ?_⟩,
    fun _ => expandAddresses_expanded distinct⟩
  · rintro ⟨e, failed⟩
    obtain ⟨front, member, back, rfl, -, offends⟩ := expandAddresses_eq_error.mp failed
    exact ⟨member, by simp, e, offends⟩
  · rintro ⟨member, present, e, offends⟩
    cases made : expandAddresses members with
    | error fault => exact ⟨fault, rfl⟩
    | ok expanded =>
      exact absurd offends (exists_expanded_iff.mp ⟨expanded, made⟩ member present e)
  · exact ⟨exists_expanded_iff.mp ⟨expanded, made⟩, rewritten_of_expandAddresses distinct made⟩
  · rintro ⟨clean, rewritten⟩
    obtain ⟨made, expansion⟩ := exists_expanded_iff.mpr clean
    rw [expansion, (rewritten_of_expandAddresses distinct expansion).unique distinct
      (distinctNames_expanded expansion distinct) rewritten]

def sevenTagged : TaggedAddress := ⟨AccountId.zero, some 7, .main⟩

/-- A tag that is null in front of its account, and one that is missing. -/
def sevens : List (String × Json) :=
  [("SourceTag", .null), ("Account", .string sevenTagged.encode),
    ("Destination", .string sevenTagged.encode)]

theorem expandAddresses_spec_sevens :
    let expanded := [("SourceTag", Json.ofNat 7), ("Account", .string AccountId.zero.address),
      ("Destination", .string AccountId.zero.address), ("DestinationTag", .ofNat 7)]
    DistinctNames sevens ∧ expandAddresses sevens = .ok expanded ∧ Rewritten sevens expanded ∧
      expandAddresses expanded = .ok expanded ∧
      expandAddresses (sevens ++ [("Owner", .string sevenTagged.encode)]) =
        .error (.tagNotAllowed "Owner") := by
  intro expanded
  have read := sevenTagged.decode_encode
  have distinct : DistinctNames sevens := by decide
  have made : expandAddresses sevens = .ok expanded :=
    expandAddresses_eq_ok.mpr ⟨_, expansionEdits_eq_ok.mpr ⟨_, .cons (.plain nofun) <|
      .cons (.moved read rfl rfl (.inr rfl)) <| .cons (.moved read rfl rfl (.inl rfl)) .nil, rfl⟩,
      rfl⟩
  have spec := expandAddresses_spec distinct
  refine ⟨distinct, made, ((spec.2.2.1 _).mp made).2, spec.2.2.2 _ made, ?_⟩
  have owned : DistinctNames (sevens ++ [("Owner", .string sevenTagged.encode)]) := by decide
  refine ((expandAddresses_spec owned).1 _).mpr ⟨sevens, _, [], rfl, fun earlier present => ?_,
    .misplaced read rfl (by decide) (by decide)⟩
  rw [← expands_iff_not_offends]
  simp only [sevens, List.mem_cons, List.not_mem_nil, or_false] at present
  rcases present with rfl | rfl | rfl
  · exact ⟨_, .plain nofun⟩
  · exact ⟨_, .moved read rfl rfl (.inr rfl)⟩
  · exact ⟨_, .moved read rfl rfl (.inl rfl)⟩

end LedgerWire
