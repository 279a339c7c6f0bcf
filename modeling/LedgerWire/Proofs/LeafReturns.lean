import LedgerWire.Proofs.Projection

namespace LedgerWire

/-- Only amounts and numbers have forms that are read but not built. -/
theorem Leaf.settled_of_other {leaf : Leaf} (h : leaf.Canonical) (no_amount : leaf.type ≠ .amount)
    (no_number : leaf.type ≠ .number) : leaf.Settled := by
  cases leaf with
  | amount => exact absurd rfl no_amount
  | number => exact absurd rfl no_number
  | _ => exact h

namespace Registry
variable {registry : Registry} {field : Field}

theorem leaf_of_value {type : LeafType} (typed : field.wireType? = some (.leaf type))
    {before after : Cursor} {value : Value}
    (h : Reader.value registry field before = .ok value after) :
    ∃ leaf, value = .leaf leaf ∧ leaf.type = type ∧ leaf.Canonical := by
  obtain ⟨rounds, middle, -, read⟩ := Reader.bind_eq_ok.mp h
  obtain ⟨found, found_typed, readAs⟩ := readAs_of_valueAt read
  cases typed.symm.trans found_typed
  cases readAs with
  | leaf canonical => exact ⟨_, rfl, rfl, canonical⟩

theorem returns_iff_settled (lawful : registry.Lawful) (member : field ∈ registry.fields)
    {leaf : Leaf} (canonical : leaf.Canonical)
    (typed : field.wireType? = some (.leaf leaf.type)) :
    (∃ json, registry.render field (.leaf leaf) = .ok json ∧
      registry.valueOf field json = .ok (.leaf leaf)) ↔ leaf.Settled := by
  constructor
  · rintro ⟨json, rendered, built⟩
    rw [valueOf_leaf typed] at built
    obtain ⟨again, made, same⟩ := map_eq_ok.mp built
    cases same
    exact settled_of_render lawful member canonical typed rendered made
  · intro settled
    obtain ⟨json, rendered, -⟩ := leafOf_render lawful member settled typed
    exact ⟨json, rendered, valueOf_rendered lawful member settled typed rendered⟩

/-- Whatever a field is read as, other than an amount or a number, is rendered and built again. -/
theorem leaf_returns (member : field ∈ bundled.fields) {type : LeafType}
    (typed : field.wireType? = some (.leaf type)) (no_amount : type ≠ .amount)
    (no_number : type ≠ .number) {before after : Cursor} {value : Value}
    (h : Reader.value bundled field before = .ok value after) :
    ∃ json, bundled.render field value = .ok json ∧ bundled.valueOf field json = .ok value := by
  obtain ⟨leaf, rfl, rfl, canonical⟩ := leaf_of_value typed h
  exact (returns_iff_settled bundled_lawful member canonical typed).mpr
    (Leaf.settled_of_other canonical no_amount no_number)

/-- A hash of 16 zeros, which is rendered as the empty text. -/
theorem leaf_returns_emailHash : ∃ emailHash ∈ bundled.fields,
    Reader.value bundled emailHash ⟨0, List.replicate 16 0⟩ =
      .ok (.leaf (.hash (.zero .h128))) ⟨16, []⟩ ∧
    ∃ json, bundled.render emailHash (.leaf (.hash (.zero .h128))) = .ok json ∧
      bundled.valueOf emailHash json = .ok (.leaf (.hash (.zero .h128))) := by
  have checked : ∃ emailHash ∈ bundled.fields,
      emailHash.wireType? = some (.leaf (.hash .h128)) ∧
      Reader.value bundled emailHash ⟨0, List.replicate 16 0⟩ =
        .ok (.leaf (.hash (.zero .h128))) ⟨16, []⟩ := by
    rw [bundled_eq]
    exact ⟨⟨"EmailHash", 1, false, true, true, "Hash128", 4⟩, by decide +kernel, by decide, by rfl⟩
  obtain ⟨emailHash, member, typed, read⟩ := checked
  exact ⟨emailHash, member, read, leaf_returns member typed nofun nofun read⟩

end Registry
end LedgerWire
