import Mathlib.Data.List.Pairwise
import LedgerWire.Proofs.Fields

namespace LedgerWire

theorem FieldHeader.ordinal_inj {a b : FieldHeader} (h : a.ordinal = b.ordinal) : a = b := by
  obtain ⟨t, f⟩ := a
  obtain ⟨t', f'⟩ := b
  have bound := f.toNat_lt
  have bound' := f'.toNat_lt
  simp only [ordinal] at h
  have type : t = t' := UInt8.toNat_inj.mp (by omega)
  have code : f = f' := UInt8.toNat_inj.mp (by omega)
  rw [type, code]

theorem toInt_shifted {t n : Nat} (type : t < 256) (code : n < 256) :
    ((Int64.ofNat t <<< 16) ||| Int64.ofNat n).toInt = t * 65536 + n := by
  have places : (16 : Int64).toBitVec.smod 64 = 16#64 := by decide
  have value {n : Nat} (bound : n < 256) : (BitVec.ofNat 64 n).toNat = n := by
    rw [BitVec.toNat_ofNat, Nat.mod_eq_of_lt (by omega)]
  have shifted : t <<< 16 < 2 ^ 64 := by
    rw [Nat.shiftLeft_eq]
    omega
  have bits : ((Int64.ofNat t <<< 16) ||| Int64.ofNat n).toBitVec.toNat = t * 65536 + n := by
    rw [Int64.toBitVec_or, Int64.toBitVec_shiftLeft, places, BitVec.toNat_or,
      BitVec.shiftLeft_eq', BitVec.toNat_shiftLeft, Int64.toBitVec_ofNat', Int64.toBitVec_ofNat',
      value type, value code, value (n := 16) (by omega), Nat.mod_eq_of_lt shifted,
      ← Nat.shiftLeft_add_eq_or_of_lt (by omega), Nat.shiftLeft_eq]
  rw [← Int64.toInt_toBitVec, BitVec.toInt_eq_toNat_of_lt (by omega), bits, Int.natCast_add,
    Int.natCast_mul]
  rfl

def FieldHeader.Codeable (typeCode nth : Int32) : Prop :=
  (1 ≤ typeCode.toInt ∧ typeCode.toInt ≤ 255) ∧ (1 ≤ nth.toInt ∧ nth.toInt ≤ 255)

theorem FieldHeader.ofCodes?_eq_some_iff {typeCode nth : Int32} {header : FieldHeader} :
    ofCodes? typeCode nth = some header ↔ Codeable typeCode nth ∧
      typeCode.toInt = header.typeCode.toNat ∧ nth.toInt = header.fieldCode.toNat := by
  constructor
  · intro coded
    simp only [ofCodes?] at coded
    split at coded
    · cases coded
      refine ⟨⟨by omega, by omega⟩, ?_, ?_⟩ <;> simp only [UInt8.toNat_ofNat'] <;> omega
    · cases coded
  · rintro ⟨⟨type_range, code_range⟩, type, code⟩
    simp only [ofCodes?]
    rw [if_pos (by omega), type, code]
    simp

theorem Field.ordinal_of_header? {field : Field} {header : FieldHeader}
    (coded : field.header? = some header) : field.ordinal = header.ordinal := by
  obtain ⟨-, codes⟩ := Registry.header?_eq_some_iff.mp coded
  obtain ⟨-, type, nth⟩ := FieldHeader.ofCodes?_eq_some_iff.mp codes
  rw [ordinal, type, nth, Int64.ofInt_eq_ofNat, Int64.ofInt_eq_ofNat,
    toInt_shifted header.typeCode.toNat_lt header.fieldCode.toNat_lt, FieldHeader.ordinal]
  rfl

namespace Registry
variable {registry : Registry}

theorem Coherent.header_inj (coherent : Coherent registry.fields) {a b : Field}
    (a_known : registry.Known a) (b_known : registry.Known b) (same : a.header? = b.header?) :
    a = b := by
  by_contra different
  have apart : registry.fields.Pairwise fun a b =>
      a.serialized = true → b.serialized = true → a.header? ≠ b.header? :=
    coherent.headers.imp fun {a b} h (_ : a.serialized = true) => h
  have symmetric : Std.Symm fun a b : Field =>
      a.serialized = true → b.serialized = true → a.header? ≠ b.header? :=
    ⟨fun _ _ h b_wire a_wire same => h a_wire b_wire same.symm⟩
  exact apart.forall a_known.listed b_known.listed different a_known.serialized b_known.serialized
    same

theorem Coherent.fieldOfHeader_eq_ok_iff (coherent : Coherent registry.fields) {field : Field}
    {header : FieldHeader} :
    registry.fieldOfHeader header = .ok field ↔
      field ∈ registry.fields ∧ field.header? = some header := by
  constructor
  · intro named
    obtain ⟨known, coded⟩ := known_of_fieldOfHeader named
    exact ⟨known.listed, coded⟩
  · rintro ⟨member, coded⟩
    have known : registry.Known field := ⟨member, (header?_eq_some_iff.mp coded).1⟩
    cases named : registry.fieldOfHeader header with
    | error fault =>
      unfold fieldOfHeader at named
      split at named
      · cases named
      · rename_i absent
        have apart := List.find?_eq_none.mp absent field member
        simp [coded] at apart
    | ok other =>
      obtain ⟨other_known, other_coded⟩ := known_of_fieldOfHeader named
      rw [coherent.header_inj other_known known (by rw [other_coded, coded])]

theorem Known.header (coherent : Coherent registry.fields) {field : Field}
    (known : registry.Known field) :
    ∃ header, field.header? = some header ∧ field.ordinal = header.ordinal := by
  obtain ⟨header, coded⟩ :=
    Option.isSome_iff_exists.mp (coherent.coded field known.listed known.serialized)
  exact ⟨header, coded, Field.ordinal_of_header? coded⟩

theorem Coherent.ordinal_inj (coherent : Coherent registry.fields) {a b : Field}
    (a_known : registry.Known a) (b_known : registry.Known b) (same : a.ordinal = b.ordinal) :
    a = b := by
  obtain ⟨header, coded, ordinal⟩ := a_known.header coherent
  obtain ⟨header', coded', ordinal'⟩ := b_known.header coherent
  apply coherent.header_inj a_known b_known
  rw [coded, coded', FieldHeader.ordinal_inj (a := header) (b := header') (by omega)]

section Members
variable {signingOnly : Bool} {members : List (String × Json)}

theorem ordered_wireMembers :
    (registry.wireMembers signingOnly members).Pairwise fun a b => a.1.ordinal ≤ b.1.ordinal := by
  have sorted : (registry.wireMembers signingOnly members).Pairwise fun a b =>
      decide (a.1.ordinal ≤ b.1.ordinal) = true := by
    apply List.pairwise_mergeSort
    · intro a b c ab bc
      rw [decide_eq_true_eq] at ab bc ⊢
      exact Int.le_trans ab bc
    · intro a b
      rw [Bool.or_eq_true, decide_eq_true_eq, decide_eq_true_eq]
      exact Int.le_total a.1.ordinal b.1.ordinal
  exact sorted.imp fun {a b} => of_decide_eq_true

theorem fieldBytes_of_ordered {expanded : List (String × Json)} {entries : List (Field × Json)}
    (expansion : expandAddresses members = .ok expanded)
    (found : (expanded.filterMap fun member => (registry.wireField? signingOnly member.1).map
      fun field => (field, member.2)) = entries)
    (ordered : entries.Pairwise fun a b => a.1.ordinal ≤ b.1.ordinal) :
    registry.fieldBytes signingOnly (.object members) = do
      return (← entries.mapM fun member =>
        registry.memberBytes (emptiesAccount expanded) member.1 member.2).flatten := by
  have sorted : registry.wireMembers signingOnly expanded = entries := by
    rw [wireMembers, found]
    exact List.mergeSort_of_pairwise (ordered.imp fun below => decide_eq_true below)
  rw [fieldBytes_object, expansion, ← sorted]
  rfl

theorem fieldBytes_pair {first second : String} {json json' : Json} {field field' : Field}
    {front back : Bytes}
    (expansion : expandAddresses [(first, json), (second, json')] =
      .ok [(first, json), (second, json')])
    (found : registry.wireField? signingOnly first = some field)
    (found' : registry.wireField? signingOnly second = some field')
    (below : field.ordinal ≤ field'.ordinal)
    (made : registry.memberBytes (emptiesAccount [(first, json), (second, json')]) field json =
      .ok front)
    (made' : registry.memberBytes (emptiesAccount [(first, json), (second, json')]) field' json' =
      .ok back) :
    registry.fieldBytes signingOnly (.object [(first, json), (second, json')]) =
      .ok (front ++ back) := by
  have entries : ([(first, json), (second, json')].filterMap fun member =>
      (registry.wireField? signingOnly member.1).map fun field => (field, member.2)) =
        [(field, json), (field', json')] := by
    simp only [List.filterMap_cons, List.filterMap_nil, found, found', Option.map_some]
  rw [fieldBytes_of_ordered expansion entries (by simp [below])]
  exact bind_eq_ok.mpr ⟨[front, back], mapM_eq_ok.mpr (.cons made (.cons made' .nil)),
    by simp [pure, Except.pure]⟩

theorem nodup_wireMembers (distinct : DistinctNames members) :
    ((registry.wireMembers signingOnly members).map fun member => member.1.name).Nodup := by
  have before : ((members.filterMap fun member =>
      (registry.wireField? signingOnly member.1).map fun field => (field, member.2)).map
        fun member => member.1.name).Nodup := by
    rw [List.Nodup, List.pairwise_map, List.pairwise_filterMap]
    rw [DistinctNames, List.Nodup, List.pairwise_map] at distinct
    refine distinct.imp fun {a b} apart => ?_
    intro c made c' made' same
    obtain ⟨field, found, rfl⟩ := Option.map_eq_some_iff.mp made
    obtain ⟨field', found', rfl⟩ := Option.map_eq_some_iff.mp made'
    obtain ⟨-, -, named⟩ := wireField?_eq_some found
    obtain ⟨-, -, named'⟩ := wireField?_eq_some found'
    exact apart (by rw [← named, ← named', same])
  exact ((List.mergeSort_perm _ _).map _).nodup_iff.mpr before

theorem mem_wireMembers_iff_lookup (distinct : DistinctNames members) {field : Field}
    {json : Json} :
    (field, json) ∈ registry.wireMembers signingOnly members ↔
      registry.wireField? signingOnly field.name = some field ∧
        members.lookup field.name = some json := by
  rw [mem_wireMembers]
  constructor
  · rintro ⟨name, member, found⟩
    obtain ⟨-, -, rfl⟩ := wireField?_eq_some found
    exact ⟨found, lookup_of_mem distinct member⟩
  · rintro ⟨found, member⟩
    exact ⟨_, mem_of_lookup member, found⟩

/-- What is made of the members in wire order depends on what their names stand for, and not on
the order of the members. -/
theorem map_wireMembers_congr {β : Type} (coherent : Coherent registry.fields)
    {others : List (String × Json)}
    (distinct : DistinctNames members) (others_distinct : DistinctNames others)
    {make make' : Field → Json → β}
    (same : ∀ name field, registry.wireField? signingOnly name = some field →
      (members.lookup name).map (make field) = (others.lookup name).map (make' field)) :
    ((registry.wireMembers signingOnly members).map fun member =>
        (member.1, make member.1 member.2)) =
      (registry.wireMembers signingOnly others).map fun member =>
        (member.1, make' member.1 member.2) := by
  have made {all : List (String × Json)} (distinct : DistinctNames all) (make : Field → Json → β)
      (field : Field) (b : β) :
      (field, b) ∈ ((registry.wireMembers signingOnly all).map fun member =>
          (member.1, make member.1 member.2)) ↔
        registry.wireField? signingOnly field.name = some field ∧
          (all.lookup field.name).map (make field) = some b := by
    rw [List.mem_map]
    constructor
    · rintro ⟨⟨field', json⟩, member, same⟩
      cases same
      obtain ⟨found, value⟩ := (mem_wireMembers_iff_lookup distinct).mp member
      exact ⟨found, by rw [value, Option.map_some]⟩
    · rintro ⟨found, value⟩
      obtain ⟨json, member, rfl⟩ := Option.map_eq_some_iff.mp value
      exact ⟨(field, json), (mem_wireMembers_iff_lookup distinct).mpr ⟨found, member⟩, rfl⟩
  have nodup {all : List (String × Json)} (distinct : DistinctNames all) (make : Field → Json → β) :
      ((registry.wireMembers signingOnly all).map fun member =>
        (member.1, make member.1 member.2)).Nodup := by
    apply List.Nodup.of_map fun entry => entry.1.name
    rw [List.map_map]
    exact nodup_wireMembers distinct
  have ordered {all : List (String × Json)} (make : Field → Json → β) :
      ((registry.wireMembers signingOnly all).map fun member =>
        (member.1, make member.1 member.2)).Pairwise fun a b => a.1.ordinal ≤ b.1.ordinal :=
    List.pairwise_map.mpr ordered_wireMembers
  -- Both lists are sorted and hold the same entries, and no two entries tie.
  refine List.Perm.eq_of_pairwise ?_ (ordered make) (ordered make') ?_
  · rintro ⟨a, x⟩ ⟨b, y⟩ a_mem b_mem below above
    obtain ⟨a_found, a_value⟩ := (made distinct make a x).mp a_mem
    obtain ⟨b_found, b_value⟩ := (made others_distinct make' b y).mp b_mem
    obtain rfl := coherent.ordinal_inj (known_of_wireField? a_found) (known_of_wireField? b_found)
      (Int.le_antisymm below above)
    rw [same a.name a a_found, b_value] at a_value
    cases a_value
    rfl
  · refine (List.perm_ext_iff_of_nodup (nodup distinct make) (nodup others_distinct make')).mpr ?_
    rintro ⟨field, b⟩
    rw [made distinct, made others_distinct]
    exact and_congr_right fun found => by rw [same field.name field found]

theorem fieldBytes_of_results {others expanded others_expanded : List (String × Json)}
    (expansion : expandAddresses members = .ok expanded)
    (others_expansion : expandAddresses others = .ok others_expanded)
    (results : ((registry.wireMembers signingOnly others_expanded).map fun member =>
        registry.memberBytes (emptiesAccount others_expanded) member.1 member.2) =
      (registry.wireMembers signingOnly expanded).map fun member =>
        registry.memberBytes (emptiesAccount expanded) member.1 member.2) :
    registry.fieldBytes signingOnly (.object others) =
      registry.fieldBytes signingOnly (.object members) := by
  rw [fieldBytes_object, fieldBytes_object, expansion, others_expansion]
  have parts := congrArg (List.mapM id) results
  rw [← mapM_eq_mapM_id, ← mapM_eq_mapM_id] at parts
  exact congrArg (fun parts => (parts >>= fun parts => pure parts.flatten)) parts

theorem fieldBytes_congr (coherent : Coherent registry.fields)
    {others expanded others_expanded : List (String × Json)} (distinct : DistinctNames members)
    (others_distinct : DistinctNames others) (expansion : expandAddresses members = .ok expanded)
    (others_expansion : expandAddresses others = .ok others_expanded)
    (type : emptiesAccount others_expanded = emptiesAccount expanded)
    (same : ∀ name field, registry.wireField? signingOnly name = some field →
      (expanded.lookup name).map (registry.memberBytes (emptiesAccount expanded) field) =
        (others_expanded.lookup name).map
          (registry.memberBytes (emptiesAccount expanded) field)) :
    registry.fieldBytes signingOnly (.object others) =
      registry.fieldBytes signingOnly (.object members) := by
  have entries := map_wireMembers_congr coherent (distinctNames_expanded expansion distinct)
    (distinctNames_expanded others_expansion others_distinct) same
  have results := congrArg (List.map Prod.snd) entries
  rw [List.map_map, List.map_map] at results
  apply fieldBytes_of_results expansion others_expansion
  rw [type]
  exact results.symm

theorem memberBytes_of_lookup {expanded : List (String × Json)} {bytes : Bytes}
    (expansion : expandAddresses members = .ok expanded)
    (accepted : registry.fieldBytes signingOnly (.object members) = .ok bytes) {name : String}
    {field : Field} {json : Json} (found : registry.wireField? signingOnly name = some field)
    (member : expanded.lookup name = some json) :
    ∃ part, registry.memberBytes (emptiesAccount expanded) field json = .ok part := by
  obtain ⟨_, expanded', parts, object, expansion', each, rfl⟩ :=
    registry.fieldBytes_eq_ok.mp accepted
  cases object
  rw [expansion] at expansion'
  cases expansion'
  obtain ⟨part, -, made⟩ := exists_right_of_mem each
    (mem_wireMembers.mpr ⟨name, mem_of_lookup member, found⟩)
  exact ⟨part, made⟩

end Members
end Registry
end LedgerWire
