import LedgerWire.Codec
import LedgerWire.Proofs.Composition
import LedgerWire.Proofs.Lawful
import LedgerWire.Proofs.Texts

namespace LedgerWire.Registry
variable {registry : Registry}

theorem renderWith_leaf (object array : Bytes → Except Error Json) (field : Field) (leaf : Leaf) :
    registry.renderWith object array field (.leaf leaf) = registry.render field (.leaf leaf) := by
  unfold render renderWith
  cases registry.nameOfValue? field (.leaf leaf) with
  | some name => rfl
  | none => cases leaf <;> rfl

theorem mem_of_name? {table : CodeTable} {code : Int32} {name : String}
    (h : table.name? code = some name) : (name, code) ∈ table.entries := by
  obtain ⟨⟨other, found⟩, entry, rfl⟩ := Option.map_eq_some_iff.mp h
  have same : found = code := by simpa using List.find?_some entry
  rw [← same]
  exact List.mem_of_find?_eq_some entry

theorem code?_of_name? {table : CodeTable} (distinct : (table.entries.map Prod.fst).Nodup)
    {code : Int32} {name : String} (h : table.name? code = some name) :
    table.code? name = some code := by
  apply lookup_of_mem
  · rw [DistinctNames, List.map_reverse]
    exact List.nodup_reverse.mpr distinct
  · exact List.mem_reverse.mpr (mem_of_name? h)

theorem nameOfValue?_eq_some {field : Field} {leaf : Leaf} {name : String}
    (h : registry.nameOfValue? field (.leaf leaf) = some name) :
    ∃ enumeration u, Enumeration.ofName? field.name = some enumeration ∧ leaf = .unsigned u ∧
      u.value < 2147483648 ∧
      (registry.table enumeration).name? (Int32.ofNat u.value) = some name := by
  simp only [nameOfValue?, Option.bind_eq_bind, Option.bind_eq_some_iff] at h
  obtain ⟨enumeration, named, code, coded, found⟩ := h
  unfold Value.code? at coded
  split at coded
  · rename_i u same
    cases same
    split at coded
    · rename_i small
      cases coded
      exact ⟨enumeration, u, named, rfl, small.2, found⟩
    · cases coded
  · cases coded

theorem render_named {field : Field} {leaf : Leaf} {name : String}
    (h : registry.nameOfValue? field (.leaf leaf) = some name) :
    registry.render field (.leaf leaf) = .ok (.string name) := by
  unfold render renderWith
  rw [h]

theorem render_decimal {field : Field} {u : Unsigned}
    (h : registry.nameOfValue? field (.leaf (.unsigned u)) = none)
    (decimal : u.width = .eight ∧ decimalFields.contains field.name) :
    registry.render field (.leaf (.unsigned u)) = .ok (.string (toString u.value)) := by
  unfold render renderWith
  rw [h]
  exact if_pos decimal

theorem render_plain {field : Field} {leaf : Leaf}
    (h : registry.nameOfValue? field (.leaf leaf) = none)
    (plain : ¬ (leaf.type = .unsigned .eight ∧ decimalFields.contains field.name)) :
    registry.render field (.leaf leaf) = leaf.toJson := by
  unfold render renderWith
  rw [h]
  cases leaf with
  | unsigned u => exact if_neg fun both => plain ⟨congrArg LeafType.unsigned both.1, both.2⟩
  | _ => rfl

theorem render_cases (field : Field) (leaf : Leaf) :
    (∃ name, registry.nameOfValue? field (.leaf leaf) = some name ∧
      registry.render field (.leaf leaf) = .ok (.string name)) ∨
    (∃ u, leaf = .unsigned u ∧ u.width = .eight ∧
      registry.render field (.leaf leaf) = .ok (.string (toString u.value))) ∨
    registry.render field (.leaf leaf) = leaf.toJson := by
  cases shown : registry.nameOfValue? field (.leaf leaf) with
  | some name => exact .inl ⟨name, rfl, render_named shown⟩
  | none =>
    by_cases decimal : leaf.type = .unsigned .eight ∧ decimalFields.contains field.name
    · cases leaf with
      | unsigned u =>
        have wide : u.width = .eight := LeafType.unsigned.inj decimal.1
        exact .inr (.inl ⟨u, rfl, wide, render_decimal shown ⟨wide, decimal.2⟩⟩)
      | _ => cases decimal.1
    · exact .inr (.inr (render_plain shown decimal))

theorem exists_render {leaf : Leaf} (canonical : leaf.Canonical) (field : Field) :
    ∃ json, registry.render field (.leaf leaf) = .ok json := by
  obtain ⟨name, -, rendered⟩ | ⟨u, -, -, rendered⟩ | plain := render_cases field leaf
  · exact ⟨_, rendered⟩
  · exact ⟨_, rendered⟩
  · rw [plain]
    cases leaf with
    | bridge value => exact ⟨_, Bridge.toJson_of_canonical canonical⟩
    | _ => exact ⟨_, rfl⟩

theorem render_account (field : Field) (account : AccountId) :
    registry.render field (.leaf (.account account)) = .ok account.toJson := by
  have unnamed : registry.nameOfValue? field (.leaf (.account account)) = none := by
    rw [nameOfValue?]
    cases Enumeration.ofName? field.name <;> rfl
  exact render_plain unnamed nofun

theorem leafOf_named {field : Field} {type : LeafType} {enumeration : Enumeration} {name : String}
    (named : Enumeration.ofName? field.name = some enumeration) :
    registry.leafOf field type (.string name) = (do
      Leaf.ofJson type (.number (.integer (← registry.codeOf enumeration name).toInt))) := by
  simp only [leafOf, named]

theorem Lawful.enumerated_leaf (lawful : registry.Lawful) {field : Field}
    (member : field ∈ registry.fields) {type : LeafType}
    (typed : field.wireType? = some (.leaf type))
    {enumeration : Enumeration} (named : Enumeration.ofName? field.name = some enumeration) :
    ∃ width, type = .unsigned width ∧ width ≠ .eight := by
  obtain ⟨width, narrow, small⟩ := lawful.enumerated field member (by rw [named]; rfl)
  rw [typed] at narrow
  cases narrow
  exact ⟨width, rfl, small⟩

theorem Lawful.not_namesCode (lawful : registry.Lawful) {field : Field}
    (member : field ∈ registry.fields) {leaf : Leaf}
    (typed : field.wireType? = some (.leaf leaf.type))
    {json : Json} (plain : leaf.toJson = .ok json) : ¬ NamesCode field json := by
  rintro ⟨enumeration, name, named, rfl⟩
  obtain ⟨width, narrow, small⟩ := lawful.enumerated_leaf member typed named
  cases leaf with
  | unsigned u =>
    cases narrow
    have number : u.toJson = .ofNat u.value := by
      unfold Unsigned.toJson
      split
      · rename_i wide
        exact absurd wide small
      · rfl
    rw [Leaf.toJson, number] at plain
    cases plain
  | _ => cases narrow

theorem leafOf_render (lawful : registry.Lawful) {field : Field} (member : field ∈ registry.fields)
    {leaf : Leaf} (settled : leaf.Settled) (typed : field.wireType? = some (.leaf leaf.type)) :
    ∃ json, registry.render field (.leaf leaf) = .ok json ∧
      registry.leafOf field leaf.type json = .ok leaf := by
  cases shown : registry.nameOfValue? field (.leaf leaf) with
  | some name =>
    refine ⟨_, render_named shown, ?_⟩
    obtain ⟨enumeration, u, named, rfl, small, found⟩ := nameOfValue?_eq_some shown
    have code : registry.codeOf enumeration name = .ok (Int32.ofNat u.value) := by
      rw [codeOf, code?_of_name? (lawful.names enumeration) found]
    have value : (Int32.ofNat u.value).toInt = u.value := Int32.toInt_ofNat_of_lt small
    have built : Leaf.ofJson (.unsigned u.width) (.number (.integer u.value)) =
        .ok (.unsigned u) := by
      refine map_eq_ok.mpr ⟨u, ?_, rfl⟩
      have numeral : Unsigned.ofNumeral u.width (.integer u.value) = .ok u := u.ofNat_value
      unfold Unsigned.ofJson
      exact numeral
    rw [leafOf_named named, code]
    change Leaf.ofJson (.unsigned u.width) (.number (.integer (Int32.ofNat u.value).toInt)) = _
    rw [value, built]
  | none =>
    by_cases decimal : leaf.type = .unsigned .eight ∧ decimalFields.contains field.name
    · cases leaf with
      | unsigned u =>
        have wide : u.width = .eight := LeafType.unsigned.inj decimal.1
        have unnamed : ¬ NamesCode field (.string (toString u.value)) := by
          rintro ⟨enumeration, -, named, -⟩
          obtain ⟨width, narrow, small⟩ := lawful.enumerated_leaf member typed named
          rw [decimal.1] at narrow
          exact small (LeafType.unsigned.inj narrow).symm
        refine ⟨_, render_decimal shown ⟨wide, decimal.2⟩, ?_⟩
        rw [leafOf_unnamed unnamed, if_pos decimal]
        exact map_eq_ok.mpr ⟨u, Unsigned.ofDecimalJson_toString wide, rfl⟩
      | _ => cases decimal.1
    · obtain ⟨json, plain, built⟩ := Leaf.ofJson_toJson settled
      refine ⟨json, by rw [render_plain shown decimal, plain], ?_⟩
      rw [leafOf_unnamed (lawful.not_namesCode member typed plain), if_neg decimal, built]

theorem leafOf_cases {field : Field} {type : LeafType} {json : Json} {leaf : Leaf}
    (h : registry.leafOf field type json = .ok leaf) :
    (type = .unsigned .eight ∧ leaf.type = .unsigned .eight ∧ leaf.Settled) ∨
      ∃ json, Leaf.ofJson type json = .ok leaf := by
  by_cases named : NamesCode field json
  · obtain ⟨enumeration, name, named, rfl⟩ := named
    rw [leafOf_named named] at h
    obtain ⟨code, -, h⟩ := bind_eq_ok.mp h
    exact .inr ⟨_, h⟩
  · rw [leafOf_unnamed named] at h
    split at h
    · rename_i decimal
      obtain ⟨u, built, rfl⟩ := map_eq_ok.mp h
      exact .inl ⟨decimal.1, congrArg _ (Unsigned.width_of_ofDecimalJson built), trivial⟩
    · exact .inr ⟨json, h⟩

theorem type_of_leafOf {field : Field} {type : LeafType} {json : Json} {leaf : Leaf}
    (h : registry.leafOf field type json = .ok leaf) : leaf.type = type := by
  rcases leafOf_cases h with ⟨rfl, same, -⟩ | ⟨_, built⟩
  · exact same
  · exact Leaf.type_of_ofJson built

theorem settled_of_leafOf {field : Field} {type : LeafType} {json : Json} {leaf : Leaf}
    (h : registry.leafOf field type json = .ok leaf) (no_asset : type ≠ .asset)
    (no_bridge : type ≠ .bridge) : leaf.Settled := by
  rcases leafOf_cases h with ⟨-, -, settled⟩ | ⟨_, built⟩
  · exact settled
  · exact Leaf.settled_of_ofJson built no_asset no_bridge

theorem settled_of_render (lawful : registry.Lawful) {field : Field}
    (member : field ∈ registry.fields) {leaf built : Leaf} (canonical : leaf.Canonical)
    (typed : field.wireType? = some (.leaf leaf.type)) {json : Json}
    (rendered : registry.render field (.leaf leaf) = .ok json)
    (h : registry.leafOf field leaf.type json = .ok built) : built.Settled := by
  by_cases asset : leaf.type = .asset ∨ leaf.type = .bridge
  · have settled := Leaf.settled_of_canonical canonical asset
    obtain ⟨json', rendered', same⟩ := leafOf_render lawful member settled typed
    rw [rendered] at rendered'
    cases rendered'
    rw [h] at same
    cases same
    exact settled
  · exact settled_of_leafOf h (fun same => asset (.inl same)) fun same => asset (.inr same)

/-- No text in the rendered leaf of a field has the length of a tagged address. -/
theorem untaggable_render (lawful : registry.Lawful) {field : Field} {leaf : Leaf}
    (canonical : leaf.Canonical) {json : Json}
    (rendered : registry.render field (.leaf leaf) = .ok json) : json.Untaggable := by
  obtain ⟨name, shown, same⟩ | ⟨u, rfl, wide, same⟩ | plain := render_cases field leaf
  · rw [same] at rendered
    cases rendered
    obtain ⟨enumeration, u, -, -, -, found⟩ := nameOfValue?_eq_some shown
    have brief : name.utf8ByteSize < 47 := lawful.brief enumeration _ (mem_of_name? found)
    have short := length_le_utf8ByteSize name
    exact Json.untaggable_string (by omega)
  · rw [same] at rendered
    cases rendered
    have bound : u.value < capacity u.width.bytes := u.fits
    rw [wide] at bound
    have eight : u.value < 18446744073709551616 := bound
    have short : (toString u.value).length ≤ 20 := length_toString_le (by decide) (by omega)
    exact Json.untaggable_string (by omega)
  · rw [plain] at rendered
    exact Leaf.untaggable canonical rendered

end LedgerWire.Registry
