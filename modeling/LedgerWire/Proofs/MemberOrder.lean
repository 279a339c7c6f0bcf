import LedgerWire.Proofs.Levels
import LedgerWire.Proofs.Repacking
import LedgerWire.Proofs.WireOrder
import LedgerWire.Signing

namespace LedgerWire

inductive Json.Distinct : Json → Prop
  | null : Distinct .null
  | bool (b : Bool) : Distinct (.bool b)
  | number (n : Numeral) : Distinct (.number n)
  | string (text : String) : Distinct (.string text)
  | array {items : List Json} : (∀ item ∈ items, Distinct item) → Distinct (.array items)
  | object {members : List (String × Json)} : DistinctNames members →
      (∀ member ∈ members, Distinct member.2) → Distinct (.object members)

/-- Two values differ by the order of the members of objects in them, the outermost included. -/
inductive Json.Permuted : Json → Json → Prop
  | refl (json : Json) : Permuted json json
  | trans {json middle other : Json} :
      Permuted json middle → Permuted middle other → Permuted json other
  | members {members others : List (String × Json)} :
      members.Perm others → Permuted (.object members) (.object others)
  | member (front back : List (String × Json)) {name : String} {json other : Json} :
      Permuted json other →
      Permuted (.object (front ++ (name, json) :: back)) (.object (front ++ (name, other) :: back))
  | item (front back : List Json) {json other : Json} : Permuted json other →
      Permuted (.array (front ++ json :: back)) (.array (front ++ other :: back))

/-- Two values without repeated names that differ by the order of members. -/
structure Json.Rearranged (json other : Json) : Prop where
  distinct : json.Distinct
  permuted : json.Permuted other

theorem lookup_perm {members others : List (String × Json)} (distinct : DistinctNames members)
    (perm : members.Perm others) (name : String) : others.lookup name = members.lookup name := by
  have others_distinct : DistinctNames others := (perm.map _).nodup_iff.mp distinct
  ext json
  constructor
  · exact fun found => lookup_of_mem distinct (perm.mem_iff.mpr (mem_of_lookup found))
  · exact fun found => lookup_of_mem others_distinct (perm.mem_iff.mp (mem_of_lookup found))

namespace Json
variable {json middle other : Json}

theorem Permuted.symm (h : Permuted json other) : Permuted other json := by
  induction h with
  | refl json => exact .refl json
  | trans _ _ first second => exact second.trans first
  | members perm => exact .members perm.symm
  | member front back _ ih => exact .member front back ih
  | item front back _ ih => exact .item front back ih

theorem Distinct.permuted (distinct : json.Distinct) (h : Permuted json other) :
    other.Distinct := by
  induction h with
  | refl => exact distinct
  | trans _ _ first second => exact second (first distinct)
  | members perm =>
    obtain _ | _ | _ | _ | _ | ⟨names, values⟩ := distinct
    exact .object ((perm.map _).nodup_iff.mp names) fun member inside =>
      values member (perm.mem_iff.mpr inside)
  | @member front back name json other _ ih =>
    obtain _ | _ | _ | _ | _ | ⟨names, values⟩ := distinct
    refine .object (by simpa [DistinctNames] using names) fun member inside => ?_
    rcases List.mem_append.mp inside with before | here
    · exact values member (List.mem_append_left _ before)
    · rcases List.mem_cons.mp here with rfl | after
      · exact ih (values (name, json) (by simp))
      · exact values member (by simp [after])
  | @item front back json other _ ih =>
    obtain _ | _ | _ | _ | ⟨items⟩ | _ := distinct
    refine .array fun item inside => ?_
    rcases List.mem_append.mp inside with before | here
    · exact items item (List.mem_append_left _ before)
    · rcases List.mem_cons.mp here with rfl | after
      · exact ih (items json (by simp))
      · exact items item (by simp [after])

theorem Distinct.rearranged (distinct : json.Distinct) : Rearranged json json :=
  ⟨distinct, .refl json⟩

theorem Rearranged.symm (h : Rearranged json other) : Rearranged other json :=
  ⟨h.distinct.permuted h.permuted, h.permuted.symm⟩

theorem Rearranged.trans (h : Rearranged json middle) (next : Rearranged middle other) :
    Rearranged json other :=
  ⟨h.distinct, h.permuted.trans next.permuted⟩

structure Reordered (members others : List (String × Json)) : Prop where
  distinct : DistinctNames members
  others_distinct : DistinctNames others
  names : (members.map Prod.fst).Perm (others.map Prod.fst)
  values : ∀ name, Option.Rel Rearranged (members.lookup name) (others.lookup name)

/-- What rearranged values look like from outside. -/
inductive Alike : Json → Json → Prop
  | plain {json : Json} : (∀ items, json ≠ .array items) → (∀ members, json ≠ .object members) →
      Alike json json
  | array {items others : List Json} :
      List.Forall₂ Rearranged items others → Alike (.array items) (.array others)
  | object {members others : List (String × Json)} :
      Reordered members others → Alike (.object members) (.object others)

theorem rel_of_distinct {members : List (String × Json)} {found : Option Json} {name : String}
    (values : ∀ member ∈ members, member.2.Distinct)
    (same : Option.Rel Permuted (members.lookup name) found) :
    Option.Rel Rearranged (members.lookup name) found := by
  generalize value : members.lookup name = old at same ⊢
  cases same with
  | none => exact .none
  | some permuted => exact .some ⟨values _ (mem_of_lookup value), permuted⟩

theorem rel_refl (found : Option Json) : Option.Rel Permuted found found := by
  cases found with
  | none => exact .none
  | some json => exact .some (.refl json)

theorem rel_trans {first second third : Option Json} (h : Option.Rel Rearranged first second)
    (next : Option.Rel Rearranged second third) : Option.Rel Rearranged first third := by
  cases h with
  | none => exact next
  | some before =>
    cases next with
    | some after => exact .some (before.trans after)

theorem Distinct.alike (distinct : json.Distinct) : Alike json json := by
  cases distinct with
  | array items =>
    exact .array (List.forall₂_same.mpr fun item member => (items item member).rearranged)
  | object names values =>
    exact .object ⟨names, names, .refl _, fun _ => rel_of_distinct values (rel_refl _)⟩
  | _ => exact .plain nofun nofun

theorem Alike.trans (h : Alike json middle) (next : Alike middle other) : Alike json other := by
  cases h with
  | plain => exact next
  | array first =>
    cases next with
    | plain no_array => exact absurd rfl (no_array _)
    | array second =>
      exact .array (forall₂_join second first.flip fun _ _ _ _ after before => before.trans after)
  | object first =>
    cases next with
    | plain _ no_object => exact absurd rfl (no_object _)
    | object second =>
      exact .object ⟨first.distinct, second.others_distinct, first.names.trans second.names,
        fun name => rel_trans (first.values name) (second.values name)⟩

theorem Rearranged.alike (h : Rearranged json other) : Alike json other := by
  obtain ⟨distinct, permuted⟩ := h
  induction permuted with
  | refl => exact distinct.alike
  | trans first _ before after => exact (before distinct).trans (after (distinct.permuted first))
  | members perm =>
    obtain _ | _ | _ | _ | _ | ⟨names, values⟩ := distinct
    refine .object ⟨names, (perm.map _).nodup_iff.mp names, perm.map _, fun name => ?_⟩
    rw [lookup_perm names perm name]
    exact rel_of_distinct values (rel_refl _)
  | @member front back name json other permuted =>
    have other_distinct : (Json.object (front ++ (name, other) :: back)).Distinct :=
      distinct.permuted (.member front back permuted)
    obtain _ | _ | _ | _ | _ | ⟨names, values⟩ := distinct
    obtain _ | _ | _ | _ | _ | ⟨other_names, -⟩ := other_distinct
    have swapped : Aligned (fun _ => Permuted) (front ++ (name, json) :: back)
        (front ++ (name, other) :: back) := aligned_swap (fun _ => .refl) permuted front back
    exact .object ⟨names, other_names, by simp,
      fun name => rel_of_distinct values (swapped.lookup name)⟩
  | @item front back json other permuted =>
    obtain _ | _ | _ | _ | ⟨items⟩ | _ := distinct
    have kept (part : List Json) (inside : ∀ item ∈ part, item.Distinct) :
        List.Forall₂ Rearranged part part :=
      List.forall₂_same.mpr fun item member => (inside item member).rearranged
    exact .array (List.rel_append (kept front fun item member => items item (by simp [member]))
      (.cons ⟨items json (by simp), permuted⟩
        (kept back fun item member => items item (by simp [member]))))

theorem Rearranged.text (h : Rearranged json other) (type : String) (expected : Shape) :
    other.text type expected = json.text type expected := by
  cases h.alike <;> rfl

theorem Rearranged.get? (h : Rearranged json other) (name : String) :
    json.get? name = none ∧ other.get? name = none ∨
      ∃ value value', json.get? name = some value ∧ other.get? name = some value' ∧
        Rearranged value value' := by
  have rel : Option.Rel Rearranged (json.get? name) (other.get? name) := by
    cases h.alike with
    | @plain json _ no_object =>
      have none : json.get? name = none := by
        cases json with
        | object members => exact absurd rfl (no_object members)
        | _ => rfl
      rw [none]
      exact .none
    | array => exact .none
    | object reordered => exact reordered.values name
  generalize json.get? name = old at rel ⊢
  generalize other.get? name = new at rel ⊢
  cases rel with
  | none => exact .inl ⟨rfl, rfl⟩
  | some inside => exact .inr ⟨_, _, rfl, rfl, inside⟩

end Json

theorem Amount.ofJson_object {json : Json} {members : List (String × Json)}
    (object : json = .object members) :
    ofJson json =
      ((json.get? "value").bind Json.string?).elim (.error (.wrongShape typeName .issuedAmount))
        fun value => (json.get? "currency").elim (.error (.wrongShape typeName .issuedAmount))
          fun currency => (json.get? "issuer").elim (.error (.wrongShape typeName .issuedAmount))
            fun issuer => ofIssued value currency issuer := by
  subst object
  simp only [ofJson]
  generalize (Json.object members).get? "currency" = currency
  generalize (Json.object members).get? "issuer" = issuer
  cases (Json.object members).get? "value" with
  | none => rfl
  | some value => cases value <;> cases currency <;> cases issuer <;> rfl

section Leaves
variable {json other : Json} (h : json.Rearranged other)
include h

theorem AccountId.ofJson_rearranged : AccountId.ofJson other = AccountId.ofJson json := by
  rw [ofJson, ofJson, h.text]

theorem Currency.ofJson_rearranged : Currency.ofJson other = Currency.ofJson json := by
  rw [ofJson, ofJson, h.text]

theorem Asset.ofCurrency_rearranged (currency : Currency) :
    ofCurrency currency (some other) = ofCurrency currency (some json) := by
  unfold ofCurrency
  cases currency.isNative with
  | true => rfl
  | false => simp only [AccountId.ofJson_rearranged h]

theorem Asset.ofJson_rearranged : Asset.ofJson other = Asset.ofJson json := by
  cases h.alike with
  | plain => rfl
  | array => rfl
  | object =>
    simp only [ofJson]
    rcases h.get? "mpt_issuance_id" with ⟨absent, absent'⟩ | ⟨id, id', found, found', inside⟩
    · rcases h.get? "currency" with ⟨none, none'⟩ | ⟨currency, currency', some, some', inside⟩
      · simp only [absent, absent', none, none']
      · simp only [absent, absent', some, some', Currency.ofJson_rearranged inside]
        rcases h.get? "issuer" with ⟨none, none'⟩ | ⟨issuer, issuer', some, some', inside⟩
        · rw [none, none']
        · simp only [some, some', ofCurrency_rearranged inside]
    · simp only [found, found', inside.text]

theorem Json.Rearranged.string? : other.string? = json.string? := by
  cases h.alike <;> rfl

theorem Json.Rearranged.text? (name : String) :
    (other.get? name).bind Json.string? = (json.get? name).bind Json.string? := by
  rcases h.get? name with ⟨none, none'⟩ | ⟨value, value', some, some', inside⟩
  · rw [none, none']
  · rw [some, some', Option.bind_some, Option.bind_some, inside.string?]

theorem Json.Rearranged.elim {α : Type} (name : String) (absent : α) (read : Json → α)
    (same : ∀ {json other : Json}, json.Rearranged other → read other = read json) :
    (other.get? name).elim absent read = (json.get? name).elim absent read := by
  rcases h.get? name with ⟨none, none'⟩ | ⟨value, value', some, some', inside⟩
  · rw [none, none']
  · rw [some, some', Option.elim_some, Option.elim_some, same inside]

theorem Amount.ofJson_rearranged : Amount.ofJson other = Amount.ofJson json := by
  cases h.alike with
  | plain => rfl
  | array => rfl
  | object =>
    rw [ofJson_object rfl, ofJson_object rfl, h.text?]
    refine congrArg (Option.elim _ _) (funext fun value => ?_)
    have issuer (currency : Json) := h.elim "issuer" (.error (.wrongShape typeName .issuedAmount))
      (fun issuer => ofIssued value currency issuer)
      fun inside => by simp only [ofIssued, AccountId.ofJson_rearranged inside]
    simp only [issuer]
    exact h.elim "currency" _ _ fun inside => by
      simp only [ofIssued, Currency.ofJson_rearranged inside]

theorem PathStep.member_rearranged {α : Type} (name : String) {read : Json → Except Error α}
    (same : ∀ {json other : Json}, json.Rearranged other → read other = read json) :
    member name read other = member name read json := by
  rw [member, member]
  rcases h.get? name with ⟨none, none'⟩ | ⟨value, value', some, some', inside⟩
  · rw [none, none']
  · rw [some, some']
    simp only [same inside]

theorem PathStep.ofJson_rearranged : PathStep.ofJson other = PathStep.ofJson json := by
  have account := member_rearranged h "account" AccountId.ofJson_rearranged
  have currency := member_rearranged h "currency" Currency.ofJson_rearranged
  have issuer := member_rearranged h "issuer" AccountId.ofJson_rearranged
  cases h.alike with
  | plain => rfl
  | array => rfl
  | object => simp only [ofJson, account, currency, issuer]

theorem Bridge.member_rearranged {α β : Type} (name : String) {read : Json → Except Error α}
    (same : ∀ {json other : Json}, json.Rearranged other → read other = read json)
    (next : α → Except Error β) :
    (member name other >>= fun value => read value >>= next) =
      (member name json >>= fun value => read value >>= next) := by
  rw [member, member]
  rcases h.get? name with ⟨none, none'⟩ | ⟨value, value', some, some', inside⟩
  · rw [none, none']
  · rw [some, some']
    exact congrArg (· >>= next) (same inside)

theorem Bridge.ofJson_rearranged : Bridge.ofJson other = Bridge.ofJson json := by
  have door {β : Type} (name : String) (next : AccountId → Except Error β) :=
    member_rearranged h name AccountId.ofJson_rearranged next
  have asset {β : Type} (name : String) (next : Asset → Except Error β) :=
    member_rearranged h name Asset.ofJson_rearranged next
  cases h.alike with
  | plain => rfl
  | array => rfl
  | object =>
    simp only [ofJson]
    simp only [door, asset]

end Leaves

theorem mapM_rearranged {α : Type} {read : Json → Except Error α} {items others : List Json}
    (same : ∀ {json other : Json}, json.Rearranged other → read other = read json)
    (h : List.Forall₂ Json.Rearranged items others) : others.mapM read = items.mapM read :=
  (mapM_congr (h.imp fun _ _ inside => (same inside).symm)).symm

theorem PathSet.pathOfJson_rearranged {json other : Json} (h : json.Rearranged other) :
    pathOfJson other = pathOfJson json := by
  cases h.alike with
  | plain => rfl
  | object => rfl
  | array steps => exact mapM_rearranged PathStep.ofJson_rearranged steps

theorem PathSet.ofJson_rearranged {json other : Json} (h : json.Rearranged other) :
    ofJson other = ofJson json := by
  cases h.alike with
  | plain => rfl
  | object => rfl
  | array paths => simp only [ofJson, mapM_rearranged pathOfJson_rearranged paths]

theorem HashList.ofJson_rearranged {json other : Json} (h : json.Rearranged other) :
    ofJson other = ofJson json := by
  have item {json other : Json} (h : json.Rearranged other) : ofItem other = ofItem json := by
    rw [ofItem, ofItem, h.text]
  cases h.alike with
  | plain => rfl
  | object => rfl
  | array items => simp only [ofJson, mapM_rearranged item items]

theorem Leaf.ofJson_rearranged {json other : Json} (h : json.Rearranged other) (type : LeafType) :
    ofJson type other = ofJson type json := by
  cases type with
  | account => rw [ofJson, ofJson, AccountId.ofJson_rearranged h]
  | currency => rw [ofJson, ofJson, Currency.ofJson_rearranged h]
  | asset => rw [ofJson, ofJson, Asset.ofJson_rearranged h]
  | amount => rw [ofJson, ofJson, Amount.ofJson_rearranged h]
  | paths => rw [ofJson, ofJson, PathSet.ofJson_rearranged h]
  | bridge => rw [ofJson, ofJson, Bridge.ofJson_rearranged h]
  | hashes => rw [ofJson, ofJson, HashList.ofJson_rearranged h]
  | hash width => rw [ofJson, ofJson, Hash.ofJson, Hash.ofJson, h.text]
  | blob => rw [ofJson, ofJson, Blob.ofJson, Blob.ofJson, h.text]
  | number => cases h.alike <;> rfl
  | unsigned width => cases h.alike <;> cases width <;> rfl

namespace Json
variable {json other : Json} {members others : List (String × Json)}

theorem Rearranged.eq_of_plain (h : Rearranged json other) (no_array : ∀ items, json ≠ .array items)
    (no_object : ∀ members, json ≠ .object members) : other = json := by
  cases h.alike with
  | plain => rfl
  | array => exact absurd rfl (no_array _)
  | object => exact absurd rfl (no_object _)

theorem Rearranged.classic (h : Rearranged json other) : Rearranged json.classic other.classic := by
  cases h.alike with
  | plain no_array no_object =>
    refine Distinct.rearranged ?_
    cases json with
    | string text =>
      rw [Json.classic]
      split <;> exact .string _
    | _ => exact h.distinct
  | array => exact h
  | object => exact h

theorem Rearranged.reordered (h : Rearranged (.object members) other) :
    ∃ others, other = .object others ∧ Reordered members others := by
  cases h.alike with
  | plain _ no_object => exact absurd rfl (no_object _)
  | object reordered => exact ⟨_, rfl, reordered⟩

namespace Reordered
variable {name tagName : String} {value : Json}

theorem lookup (h : Reordered members others) (found : members.lookup name = some value) :
    ∃ other, others.lookup name = some other ∧ Rearranged value other := by
  have values := h.values name
  rw [found] at values
  generalize others.lookup name = new at values
  cases values with
  | some inside => exact ⟨_, rfl, inside⟩

theorem lookup_plain (h : Reordered members others) (found : members.lookup name = some value)
    (no_array : ∀ items, value ≠ .array items) (no_object : ∀ members, value ≠ .object members) :
    others.lookup name = some value := by
  obtain ⟨other, found', inside⟩ := h.lookup found
  rw [found', inside.eq_of_plain no_array no_object]

theorem lookup_free (h : Reordered members others)
    (free : members.lookup name = none ∨ members.lookup name = some .null) :
    others.lookup name = none ∨ others.lookup name = some .null := by
  rcases free with missing | null
  · have values := h.values name
    rw [missing] at values
    generalize others.lookup name = new at values ⊢
    cases values
    exact .inl rfl
  · exact .inr (h.lookup_plain null nofun nofun)

theorem symm (h : Reordered members others) : Reordered others members := by
  refine ⟨h.others_distinct, h.distinct, h.names.symm, fun name => ?_⟩
  have values := h.values name
  generalize members.lookup name = old at values ⊢
  generalize others.lookup name = new at values ⊢
  cases values with
  | none => exact .none
  | some inside => exact .some inside.symm

theorem moves (h : Reordered members others) {tag : UInt32} (moves : Moves members tagName tag) :
    Moves others tagName tag := by
  obtain ⟨⟨account, text, x, paired, found, read, tagged⟩, free⟩ := moves
  exact ⟨⟨account, text, x, paired, h.lookup_plain found nofun nofun, read, tagged⟩,
    h.lookup_free free⟩

theorem expands (h : Reordered members others) {other : Json} (inside : Rearranged value other)
    {part : List (String × Json)} (expands : Expands members name value part) :
    Expands others name other part := by
  have text {text : String} (is_text : value = .string text) : other = .string text := by
    subst is_text
    exact inside.eq_of_plain nofun nofun
  cases expands with
  | plain plain =>
    refine .plain fun text x is_text => plain text x ?_
    subst is_text
    exact inside.symm.eq_of_plain nofun nofun
  | untagged read untagged =>
    rw [text rfl]
    exact .untagged read untagged
  | moved read tagged paired free =>
    rw [text rfl]
    exact .moved read tagged paired (h.lookup_free free)
  | agreed read tagged paired found agrees =>
    rw [text rfl]
    refine .agreed read tagged paired (h.lookup_plain found ?_ ?_) agrees
    · rintro items rfl
      cases agrees
    · rintro members rfl
      cases agrees

theorem expand (h : Reordered members others) {expanded : List (String × Json)}
    (expansion : expandAddresses members = .ok expanded) :
    ∃ others_expanded, expandAddresses others = .ok others_expanded := by
  apply expandAddresses_of_expands
  rintro ⟨name, other⟩ member
  obtain ⟨value, found, inside⟩ := h.symm.lookup (lookup_of_mem h.others_distinct member)
  obtain ⟨part, expands⟩ := expands_of_mem expansion (mem_of_lookup found)
  exact ⟨part, h.expands inside.symm expands⟩

theorem lookup_expanded (h : Reordered members others)
    {expanded others_expanded : List (String × Json)}
    (expansion : expandAddresses members = .ok expanded)
    (others_expansion : expandAddresses others = .ok others_expanded) (name : String) :
    Option.Rel Rearranged (expanded.lookup name) (others_expanded.lookup name) := by
  by_cases moved : ∃ tag, Moves members name tag
  · obtain ⟨tag, moved⟩ := moved
    rw [lookup_expanded_of_moves expansion h.distinct moved,
      lookup_expanded_of_moves others_expansion h.others_distinct (h.moves moved)]
    exact .some (Distinct.number _).rearranged
  · rw [LedgerWire.lookup_expanded expansion h.distinct fun tag is_moved => moved ⟨tag, is_moved⟩,
      LedgerWire.lookup_expanded others_expansion h.others_distinct fun tag is_moved =>
        moved ⟨tag, h.symm.moves is_moved⟩]
    have values := h.values name
    generalize members.lookup name = old at values ⊢
    generalize others.lookup name = new at values ⊢
    cases values with
    | none => exact .none
    | some inside => exact .some inside.classic

end Reordered
end Json

namespace Registry
variable {registry : Registry} {field : Field} {json other : Json}

theorem emptiesAccount_rearranged {expanded others_expanded : List (String × Json)}
    (values : Option.Rel Json.Rearranged (expanded.lookup "TransactionType")
      (others_expanded.lookup "TransactionType")) :
    emptiesAccount others_expanded = emptiesAccount expanded := by
  rw [emptiesAccount, emptiesAccount]
  generalize expanded.lookup "TransactionType" = old at values ⊢
  generalize others_expanded.lookup "TransactionType" = new at values ⊢
  cases values with
  | none => rfl
  | some inside => rw [Option.bind_some, Option.bind_some, inside.string?]

theorem leafOf_rearranged (h : json.Rearranged other) (type : LeafType) :
    registry.leafOf field type other = registry.leafOf field type json := by
  have unnamed {json : Json} (no_text : ∀ text, json ≠ .string text) : ¬ NamesCode field json := by
    rintro ⟨_, text, -, is_text⟩
    exact no_text text is_text
  cases h.alike with
  | plain => rfl
  | array | object =>
    rw [leafOf_unnamed (unnamed (by rintro _ ⟨⟩)), leafOf_unnamed (unnamed (by rintro _ ⟨⟩)),
      Leaf.ofJson_rearranged h]
    rfl

variable (registry) in
/-- The order in which an object has its members makes no difference to its bytes. -/
def OrderFree (members : List (String × Json)) : Prop :=
  ∀ other signingOnly bytes, (Json.object members).Rearranged other →
    registry.fieldBytes signingOnly (.object members) = .ok bytes →
    registry.fieldBytes signingOnly other = .ok bytes

theorem itemBytes_rearranged (h : json.Rearranged other)
    (nested : ∀ name inner, json = .object [(name, .object inner)] → registry.OrderFree inner)
    {part : Bytes} (made : registry.itemBytes json = .ok part) :
    registry.itemBytes other = .ok part := by
  obtain ⟨name, body, field, header, inner, rfl, unmarked, found, object, coded, accepted, rfl⟩ :=
    registry.itemBytes_eq_ok.mp made
  obtain ⟨members, -, -, rfl, -⟩ := registry.fieldBytes_eq_ok.mp accepted
  obtain ⟨others, rfl, reordered⟩ := h.reordered
  have names := List.perm_singleton.mp reordered.names.symm
  obtain ⟨⟨name', body⟩, rfl, same⟩ := List.map_eq_singleton_iff.mp names
  obtain rfl : name' = name := same
  have here : [(name', Json.object members)].lookup name' = some (.object members) := by simp
  obtain ⟨_, value, inside⟩ := reordered.lookup here
  obtain rfl : body = _ := by simpa using value
  exact registry.itemBytes_eq_ok.mpr ⟨name', body, field, header, inner, rfl, unmarked, found,
    object, coded, nested name' members rfl body false inner inside accepted, rfl⟩

theorem valueOf_rearranged (h : json.Rearranged other)
    (object : ∀ inner, field.wireType? = some .object → json = .object inner →
      registry.OrderFree inner)
    (array : ∀ items name inner, field.wireType? = some .array → json = .array items →
      .object [(name, .object inner)] ∈ items → registry.OrderFree inner)
    {value : Value} (built : registry.valueOf field json = .ok value) :
    registry.valueOf field other = .ok value := by
  rcases typed : field.wireType? with _ | type | _ | _
  · have untyped : field.wireType = .error (.unsupportedType field.name field.typeName) := by
      rw [Field.wireType, typed]
    simp only [valueOf, Item.toFieldValue, untyped] at built
    cases built
  · rwa [valueOf_leaf typed, leafOf_rearranged h, ← valueOf_leaf typed]
  · obtain ⟨body, accepted, rfl⟩ := (valueOf_object_eq_ok typed).mp built
    obtain ⟨inner, -, -, rfl, -⟩ := registry.fieldBytes_eq_ok.mp accepted
    exact (valueOf_object_eq_ok typed).mpr
      ⟨body, object inner typed rfl other false body h accepted, rfl⟩
  · obtain ⟨items, parts, rfl, each, rfl⟩ := (valueOf_array_eq_ok typed).mp built
    cases h.alike with
    | plain no_array => exact absurd rfl (no_array _)
    | array rearranged =>
      refine (valueOf_array_eq_ok typed).mpr ⟨_, parts, rfl, ?_, rfl⟩
      refine forall₂_join each rearranged fun item member part item' made inside => ?_
      refine itemBytes_rearranged inside (fun name inner same => ?_) made
      exact array items name inner typed rfl (same ▸ member)

theorem orderFree_of_nested (coherent : Coherent registry.fields) {members : List (String × Json)}
    (nested : ∀ inner, registry.Nested members inner → registry.OrderFree inner) :
    registry.OrderFree members := by
  intro other signingOnly bytes h accepted
  obtain ⟨others, rfl, reordered⟩ := h.reordered
  obtain ⟨_, expanded, -, object, expansion, -⟩ := registry.fieldBytes_eq_ok.mp accepted
  cases object
  obtain ⟨others_expanded, others_expansion⟩ := reordered.expand expansion
  have values := reordered.lookup_expanded expansion others_expansion
  rw [fieldBytes_congr coherent reordered.distinct reordered.others_distinct expansion
    others_expansion (emptiesAccount_rearranged (values _)), accepted]
  intro name field found
  have value := values name
  cases old : expanded.lookup name with
  | none =>
    rw [old] at value
    generalize others_expanded.lookup name = new at value ⊢
    cases value
    rfl
  | some json =>
    obtain ⟨part, made⟩ := memberBytes_of_lookup expansion accepted found old
    obtain ⟨built_value, -, built, -⟩ := value_of_memberBytes made
    rw [old] at value
    generalize others_expanded.lookup name = new at value ⊢
    cases value with
    | some inside =>
      have typed : registry.memberType? name = field.wireType? := by
        rw [memberType?, wireField?_false found, Option.bind_some]
      have kept (container : ¬ json.IsAtom) : (name, json) ∈ members :=
        mem_of_mem_expanded expansion (mem_of_lookup old) container
      have again : registry.valueOf field _ = .ok built_value := valueOf_rearranged inside
        (by
          rintro inner object rfl
          exact nested inner (.object (kept (not_isAtom_object inner)) (typed.trans object)))
        (by
          rintro items name inner array rfl item
          exact nested inner
            (.element (kept (not_isAtom_array items)) (typed.trans array) item)) built
      rw [Option.map_some, Option.map_some, memberBytes_congr (again.trans built.symm)]

theorem orderFree (coherent : Coherent registry.fields) (members : List (String × Json)) :
    registry.OrderFree members :=
  level_induction (fun _ nested => orderFree_of_nested coherent nested) members

theorem fieldBytes_rearranged (coherent : Coherent registry.fields) (h : json.Rearranged other)
    {signingOnly : Bool} {bytes : Bytes} :
    registry.fieldBytes signingOnly json = .ok bytes ↔
      registry.fieldBytes signingOnly other = .ok bytes := by
  constructor
  · intro accepted
    obtain ⟨members, -, -, rfl, -⟩ := registry.fieldBytes_eq_ok.mp accepted
    exact orderFree coherent members other signingOnly bytes h accepted
  · intro accepted
    obtain ⟨members, -, -, rfl, -⟩ := registry.fieldBytes_eq_ok.mp accepted
    exact orderFree coherent members json signingOnly bytes h.symm accepted

end Registry
end LedgerWire
