import LedgerWire.Proofs.MemberOrder
import LedgerWire.Proofs.SigningScope

namespace LedgerWire

def FieldHeader.Before (a b : FieldHeader) : Prop :=
  a.typeCode < b.typeCode ∨ a.typeCode = b.typeCode ∧ a.fieldCode < b.fieldCode

theorem FieldHeader.before_of_ordinal {a b : FieldHeader} (h : a.ordinal < b.ordinal) :
    a.Before b := by
  have a_code := a.fieldCode.toNat_lt
  have b_code := b.fieldCode.toNat_lt
  simp only [ordinal] at h
  rw [Before, UInt8.lt_iff_toNat_lt, UInt8.lt_iff_toNat_lt, ← UInt8.toNat_inj]
  omega

namespace Registry
variable (registry : Registry)

/-- The bytes of an object are its fields one after another, each behind its header, and the headers
ascend strictly. -/
def Ascending (signingOnly : Bool) (members : List (String × Json)) (bytes : Bytes) : Prop :=
  ∃ (expanded : List (String × Json)) (pieces : List (FieldHeader × Bytes)),
    expandAddresses members = .ok expanded ∧
    List.Forall₂ (fun member piece => member.1.header? = some piece.1 ∧
        registry.memberBytes (emptiesAccount expanded) member.1 member.2 =
          .ok (piece.1.encode ++ piece.2))
      (registry.wireMembers signingOnly expanded) pieces ∧
    pieces.Pairwise (fun a b => a.1.Before b.1) ∧
    bytes = (pieces.map fun piece => piece.1.encode ++ piece.2).flatten

/-- An object that is written inside another, at any depth. Signatures cover all fields of the
objects inside. -/
inductive Within : Bool → List (String × Json) → List (String × Json) → Prop
  | object {signingOnly : Bool} {members inner : List (String × Json)} {field : Field} :
      registry.Writes signingOnly members field (.object inner) →
      field.wireType? = some .object → Within signingOnly members inner
  | element {signingOnly : Bool} {members inner : List (String × Json)} {field : Field}
      {items : List Json} {name : String} :
      registry.Writes signingOnly members field (.array items) → field.wireType? = some .array →
      .object [(name, .object inner)] ∈ items → Within signingOnly members inner
  | deeper {signingOnly : Bool} {members middle inner : List (String × Json)} :
      Within signingOnly members middle → Within false middle inner →
      Within signingOnly members inner

/-- The headers of an object ascend strictly, and so do those of all objects that are written
inside. -/
def Canonical (signingOnly : Bool) (members : List (String × Json)) (bytes : Bytes) : Prop :=
  registry.Ascending signingOnly members bytes ∧
    ∀ inner, registry.Within signingOnly members inner →
      ∃ body, registry.Ascending false inner body ∧ body <:+: bytes

variable {registry} {signingOnly : Bool} {members inner : List (String × Json)} {bytes : Bytes}

theorem strict_wireMembers (coherent : Coherent registry.fields)
    (distinct : DistinctNames members) :
    (registry.wireMembers signingOnly members).Pairwise fun a b => a.1.ordinal < b.1.ordinal := by
  have apart : ((registry.wireMembers signingOnly members).map fun member => member.1.name).Nodup :=
    nodup_wireMembers distinct
  refine (ordered_wireMembers.and (List.pairwise_map.mp apart)).imp_of_mem
    fun {a b} a_mem b_mem both => ?_
  refine lt_of_le_of_ne both.1 fun same => both.2 ?_
  rw [coherent.ordinal_inj (known_of_mem_wireMembers a_mem) (known_of_mem_wireMembers b_mem) same]

theorem ascending_of_fieldBytes (coherent : Coherent registry.fields)
    (distinct : DistinctNames members)
    (accepted : registry.fieldBytes signingOnly (.object members) = .ok bytes) :
    registry.Ascending signingOnly members bytes := by
  obtain ⟨_, expanded, parts, object, expansion, each, rfl⟩ :=
    registry.fieldBytes_eq_ok.mp accepted
  cases object
  obtain ⟨pieces, rfl, made⟩ := exists_forall₂_map
    (f := fun piece : FieldHeader × Bytes => piece.1.encode ++ piece.2)
    (S := fun member piece => member.1.header? = some piece.1 ∧
        registry.memberBytes (emptiesAccount expanded) member.1 member.2 =
          .ok (piece.1.encode ++ piece.2)) each (by
      intro member in_wire part made
      obtain ⟨value, written, -, wrote, rfl⟩ := value_of_memberBytes made
      obtain ⟨header, payload, coded, rfl, -⟩ := written_eq_ok.mp wrote
      exact ⟨(header, payload ++ if member.1.isObject then [objectEnd] else []),
        by simp, coded, by rw [made]; simp⟩)
  refine ⟨expanded, pieces, expansion, made, ?_, rfl⟩
  have ordinals : (registry.wireMembers signingOnly expanded).map (·.1.ordinal) =
      pieces.map fun piece => (piece.1.ordinal : Int) :=
    map_eq_map made fun member piece related => Field.ordinal_of_header? related.1
  have strict : ((registry.wireMembers signingOnly expanded).map (·.1.ordinal)).Pairwise (· < ·) :=
    List.pairwise_map.mpr (strict_wireMembers coherent (distinctNames_expanded expansion distinct))
  rw [ordinals] at strict
  exact (List.pairwise_map.mp strict).imp fun below =>
    FieldHeader.before_of_ordinal (Int.ofNat_lt.mp below)

theorem Within.distinct (within : registry.Within signingOnly members inner)
    (distinct : (Json.object members).Distinct) : (Json.object inner).Distinct := by
  have inside {signingOnly : Bool} {members : List (String × Json)} {field : Field} {json : Json}
      (distinct : (Json.object members).Distinct)
      (writes : registry.Writes signingOnly members field json) (container : ¬ json.IsAtom) :
      json.Distinct := by
    obtain ⟨expanded, expansion, in_wire, -⟩ := writes
    obtain _ | _ | _ | _ | _ | ⟨-, values⟩ := distinct
    exact values _ (mem_of_mem_wireMembers expansion in_wire container).1
  induction within with
  | object writes => exact inside distinct writes (not_isAtom_object _)
  | element writes _ item =>
    obtain _ | _ | _ | _ | ⟨items⟩ | _ := inside distinct writes (not_isAtom_array _)
    obtain _ | _ | _ | _ | _ | ⟨-, values⟩ := items _ item
    exact values _ (List.mem_singleton.mpr rfl)
  | deeper _ _ outer deep => exact deep (outer distinct)

theorem Within.fieldBytes (within : registry.Within signingOnly members inner)
    (accepted : registry.fieldBytes signingOnly (.object members) = .ok bytes) :
    ∃ body, registry.fieldBytes false (.object inner) = .ok body ∧ body <:+: bytes := by
  induction within generalizing bytes with
  | object writes typed => exact body_of_writes_object accepted writes typed
  | element writes typed item => exact body_of_writes_array accepted writes typed item
  | deeper _ _ outer deep =>
    obtain ⟨middle, accepted_middle, inside⟩ := outer accepted
    obtain ⟨body, accepted_inner, deeper⟩ := deep accepted_middle
    exact ⟨body, accepted_inner, deeper.trans inside⟩

theorem canonical_of_fieldBytes (coherent : Coherent registry.fields) {json : Json}
    (distinct : json.Distinct) (accepted : registry.fieldBytes signingOnly json = .ok bytes) :
    ∃ members, json = .object members ∧ registry.Canonical signingOnly members bytes := by
  obtain ⟨members, -, -, rfl, -⟩ := registry.fieldBytes_eq_ok.mp accepted
  have names {members : List (String × Json)} (distinct : (Json.object members).Distinct) :
      DistinctNames members := by
    obtain _ | _ | _ | _ | _ | ⟨names, -⟩ := distinct
    exact names
  refine ⟨members, rfl, ascending_of_fieldBytes coherent (names distinct) accepted, ?_⟩
  intro inner within
  obtain ⟨body, accepted_inner, inside⟩ := within.fieldBytes accepted
  exact ⟨body, ascending_of_fieldBytes coherent (names (within.distinct distinct)) accepted_inner,
    inside⟩

theorem coherent_of_ofDocument {document : Document}
    (loaded : ofDocument document = .ok registry) : Coherent registry.fields := by
  obtain ⟨fields, -, coherent, -, -, -, -, rfl⟩ := ofDocument_eq_ok.mp loaded
  exact coherent

def typedMemo : List (String × Json) := [("MemoType", .string "01"), ("MemoData", .string "AB")]

def backwardMemo : List (String × Json) := [("MemoData", .string "AB"), ("MemoType", .string "01")]

def inMemos (memo : List (String × Json)) : List (String × Json) :=
  [("Memos", .array [.object [("Memo", .object memo)]])]

theorem checked_memoFields : ∃ type data memos memo : Field,
    (Bundled.registry.wireField? false "MemoType" = some type ∧
      Bundled.registry.wireField? false "MemoData" = some data ∧ type.ordinal ≤ data.ordinal ∧
      Bundled.registry.memberBytes false type (.string "01") = .ok [0x7C, 0x01, 0x01] ∧
      Bundled.registry.memberBytes false data (.string "AB") = .ok [0x7D, 0x01, 0xAB]) ∧
    (Bundled.registry.wireField? false "Memos" = some memos ∧ memos.wireType? = some .array ∧
      memos.header? = some ⟨15, 9⟩ ∧ memos.variableLength = false ∧ memos.isObject = false) ∧
    Bundled.registry.field "Memo" = .ok memo ∧ memo.isObject = true ∧
    memo.header = .ok ⟨14, 10⟩ := by
  refine ⟨⟨"MemoType", 12, true, true, true, "Blob", 7⟩,
    ⟨"MemoData", 13, true, true, true, "Blob", 7⟩,
    ⟨"Memos", 9, false, true, true, "STArray", 15⟩,
    ⟨"Memo", 10, false, true, true, "STObject", 14⟩, ?_⟩
  decide +kernel

theorem encode_typedMemo :
    Bundled.registry.encode (.object (inMemos typedMemo)) =
      .ok [0xF9, 0xEA, 0x7C, 0x01, 0x01, 0x7D, 0x01, 0xAB, 0xE1, 0xF1] := by
  obtain ⟨type, data, memos, memo, ⟨found_type, found_data, below, made_type, made_data⟩,
    ⟨found, typed, coded, plain, no_object⟩, named, object, coded_memo⟩ := checked_memoFields
  have no_tag : expandAddresses typedMemo = .ok typedMemo := by
    refine expandAddresses_of_plain fun name text member x read => ?_
    have long := TaggedAddress.length_of_decode read
    simp only [typedMemo, List.mem_cons, Prod.mk.injEq, Json.string.injEq, List.not_mem_nil,
      or_false] at member
    obtain ⟨-, rfl⟩ | ⟨-, rfl⟩ := member <;> cases long
  have body := fieldBytes_pair no_tag found_type found_data below made_type made_data
  have item := Bundled.registry.itemBytes_eq_ok.mpr
    ⟨"Memo", _, memo, _, _, rfl, by decide, named, object, coded_memo, body, rfl⟩
  have list := (valueOf_array_eq_ok typed).mpr ⟨_, _, rfl, .cons item .nil, rfl⟩
  have written (value : Bytes) : Writer.fieldBytes memos value false = .ok ([0xF9] ++ value) :=
    written_eq_ok.mpr ⟨_, value, coded, rfl, .inl ⟨plain, rfl⟩⟩
  have member : Bundled.registry.memberBytes false memos
      (.array [.object [("Memo", .object typedMemo)]]) = .ok (_ ++ _) :=
    bind_eq_ok.mpr ⟨_, list, bind_eq_ok.mpr ⟨_, written _, rfl⟩⟩
  have no_texts : expandAddresses (inMemos typedMemo) = .ok (inMemos typedMemo) :=
    expandAddresses_of_plain (by simp [inMemos])
  have entries : ((inMemos typedMemo).filterMap fun member =>
      (Bundled.registry.wireField? false member.1).map fun field => (field, member.2)) =
        [(memos, .array [.object [("Memo", .object typedMemo)]])] := by
    rw [inMemos, List.filterMap_cons_some (by rw [found]; rfl), List.filterMap_nil]
  rw [encode, fieldBytes_of_ordered no_texts entries (List.pairwise_singleton _ _)]
  refine bind_eq_ok.mpr ⟨_, mapM_eq_ok.mpr (.cons member .nil), ?_⟩
  rw [no_object]
  rfl

/-- Encoding is canonical whatever registry was loaded: values that differ by the order of members
are encoded alike, for signing too, and the headers of every object that is written ascend
strictly. -/
theorem encoding_canonical {document : Document} {registry : Registry}
    (loaded : ofDocument document = .ok registry) :
    (∀ json other : Json, json.Distinct → json.Permuted other → ∀ bytes,
      (registry.encode json = .ok bytes ↔ registry.encode other = .ok bytes) ∧
      (registry.encodeForSigning json = .ok bytes ↔
        registry.encodeForSigning other = .ok bytes)) ∧
    ∀ json : Json, json.Distinct → ∀ bytes,
      (registry.encode json = .ok bytes →
        ∃ members, json = .object members ∧ registry.Canonical false members bytes) ∧
      (registry.encodeForSigning json = .ok bytes →
        ∃ members body, json = .object members ∧ bytes = Purpose.signing.bytes ++ body ∧
          registry.Canonical true members body) := by
  have coherent := coherent_of_ofDocument loaded
  refine ⟨fun json other distinct permuted bytes => ?_, fun json distinct bytes => ⟨?_, ?_⟩⟩
  · have same (signingOnly : Bool) (bytes : Bytes) :
        registry.fieldBytes signingOnly json = .ok bytes ↔
          registry.fieldBytes signingOnly other = .ok bytes :=
      fieldBytes_rearranged coherent ⟨distinct, permuted⟩
    refine ⟨same false bytes, ?_⟩
    rw [encodeForSigning_eq_ok_iff, encodeForSigning_eq_ok_iff]
    simp only [same true]
  · exact canonical_of_fieldBytes coherent distinct
  · intro accepted
    obtain ⟨body, made, rfl⟩ := encodeForSigning_eq_ok_iff.mp accepted
    obtain ⟨members, rfl, canonical⟩ := canonical_of_fieldBytes coherent distinct made
    exact ⟨members, body, rfl, rfl, canonical⟩

/-- A memo that has its data before its type is encoded like one in wire order. -/
theorem encode_backwardMemo :
    Bundled.registry.encode (.object (inMemos backwardMemo)) =
        .ok [0xF9, 0xEA, 0x7C, 0x01, 0x01, 0x7D, 0x01, 0xAB, 0xE1, 0xF1] ∧
      Bundled.registry.Canonical false (inMemos backwardMemo)
        [0xF9, 0xEA, 0x7C, 0x01, 0x01, 0x7D, 0x01, 0xAB, 0xE1, 0xF1] := by
  obtain ⟨alike, canonical⟩ := encoding_canonical Bundled.ofDocument_document
  have distinct : (Json.object (inMemos backwardMemo)).Distinct := by
    refine .object (by decide) fun member in_object => ?_
    rw [List.mem_singleton.mp in_object]
    refine .array fun item in_array => ?_
    rw [List.mem_singleton.mp in_array]
    refine .object (by decide) fun member in_item => ?_
    rw [List.mem_singleton.mp in_item]
    refine .object (by decide) fun member in_memo => ?_
    simp only [backwardMemo, List.mem_cons, List.not_mem_nil, or_false] at in_memo
    obtain rfl | rfl := in_memo <;> exact .string _
  have permuted : (Json.object (inMemos backwardMemo)).Permuted (.object (inMemos typedMemo)) :=
    .member [] [] (.item [] [] (.member [] [] (.members (.swap _ _ _))))
  have accepted := (alike _ _ distinct permuted _).1.mpr encode_typedMemo
  obtain ⟨_, same, canonical⟩ := (canonical _ distinct _).1 accepted
  cases same
  exact ⟨accepted, canonical⟩

end Registry
end LedgerWire
