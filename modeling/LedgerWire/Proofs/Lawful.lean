import LedgerWire.Proofs.Loading
import LedgerWire.Value.Basic
import LedgerWire.Value.Expansion

namespace LedgerWire

def WireType.prefixed : WireType → Bool
  | .leaf .blob | .leaf .account | .leaf .hashes => true
  | _ => false

namespace Registry

def carries (registry : Registry) (name : String) (type : WireType) : Bool :=
  (registry.field? name).any fun field =>
    field.serialized && field.signing && field.wireType? == some type

structure Lawful (registry : Registry) : Prop where
  coherent : Coherent registry.fields
  typed : ∀ field ∈ registry.fields, field.serialized = true →
    ∃ type, field.wireType? = some type ∧ field.variableLength = type.prefixed
  enumerated : ∀ field ∈ registry.fields, (Enumeration.ofName? field.name).isSome = true →
    ∃ width, field.wireType? = some (.leaf (.unsigned width)) ∧ width ≠ .eight
  codes : ∀ enumeration, ((registry.table enumeration).entries.map Prod.snd).Nodup
  names : ∀ enumeration, ((registry.table enumeration).entries.map Prod.fst).Nodup
  brief : ∀ enumeration, ∀ entry ∈ (registry.table enumeration).entries, entry.1.utf8ByteSize < 47
  objectMarker : (registry.field? objectEndName).bind Field.header? = some ⟨14, 1⟩
  arrayMarker : (registry.field? arrayEndName).bind Field.header? = some ⟨15, 1⟩
  arrayType : (registry.field? arrayEndName).bind Field.wireType? = some .array
  accounts : ∀ name tagName, tagMember? name = some tagName →
    registry.carries name (.leaf .account) = true ∧
      registry.carries tagName (.leaf (.unsigned .four)) = true
  transactionType : registry.carries "TransactionType" (.leaf (.unsigned .two)) = true

namespace Bundled

theorem checked_names (enumeration : Enumeration) :
    ((registry.table enumeration).entries.map Prod.fst).Nodup ∧
      ∀ entry ∈ (registry.table enumeration).entries, entry.1.utf8ByteSize < 47 := by
  have all : ∀ enumeration ∈ Enumeration.all,
      allDifferent 0
          (((registry.table enumeration).entries.map Prod.fst).map spelled) = true ∧
        ∀ entry ∈ (registry.table enumeration).entries, entry.1.utf8ByteSize < 47 := by
    decide +kernel
  obtain ⟨numbers, brief⟩ := all enumeration (by cases enumeration <;> decide)
  exact ⟨List.Nodup.of_map spelled (nodup_of_allDifferent numbers).1, brief⟩

theorem checked_described : ∀ field ∈ described,
    (field.serialized = true →
      field.wireType?.any (fun type => field.variableLength = type.prefixed) = true) ∧
    ((Enumeration.ofName? field.name).isSome = true →
      field.wireType? = some (.leaf (.unsigned .one)) ∨
        field.wireType? = some (.leaf (.unsigned .two)) ∨
        field.wireType? = some (.leaf (.unsigned .four))) := by
  decide +kernel

theorem typed_described : ∀ field ∈ described, field.serialized = true →
    ∃ type, field.wireType? = some type ∧ field.variableLength = type.prefixed := by
  intro field member on_wire
  simpa [Option.any_eq_true] using (checked_described field member).1 on_wire

theorem enumerated_described : ∀ field ∈ described,
    (Enumeration.ofName? field.name).isSome = true →
      ∃ width, field.wireType? = some (.leaf (.unsigned width)) ∧ width ≠ .eight := by
  intro field member named
  rcases (checked_described field member).2 named with one | two | four
  · exact ⟨.one, one, nofun⟩
  · exact ⟨.two, two, nofun⟩
  · exact ⟨.four, four, nofun⟩

theorem checked_known :
    (registry.field? objectEndName).bind Field.header? = some ⟨14, 1⟩ ∧
    (registry.field? arrayEndName).bind Field.header? = some ⟨15, 1⟩ ∧
    (registry.field? arrayEndName).bind Field.wireType? = some .array ∧
    (∀ pair ∈ [("Account", "SourceTag"), ("Destination", "DestinationTag")],
      registry.carries pair.1 (.leaf .account) = true ∧
        registry.carries pair.2 (.leaf (.unsigned .four)) = true) ∧
    registry.carries "TransactionType" (.leaf (.unsigned .two)) = true := by
  decide +kernel

theorem accounts_carried (name tagName : String) (paired : tagMember? name = some tagName) :
    registry.carries name (.leaf .account) = true ∧
      registry.carries tagName (.leaf (.unsigned .four)) = true := by
  rw [tagMember?, List.lookup_eq_some_iff] at paired
  obtain ⟨front, back, whole, -⟩ := paired
  exact checked_known.2.2.2.1 (name, tagName) (by rw [whole]; simp)

end Bundled

theorem bundled_lawful : Lawful bundled := by
  rw [bundled_eq]
  exact {
    coherent := Bundled.coherent_described
    typed := Bundled.typed_described
    enumerated := Bundled.enumerated_described
    codes := Bundled.nodup_codes
    names := fun enumeration => (Bundled.checked_names enumeration).1
    brief := fun enumeration => (Bundled.checked_names enumeration).2
    objectMarker := Bundled.checked_known.1
    arrayMarker := Bundled.checked_known.2.1
    arrayType := Bundled.checked_known.2.2.1
    accounts := Bundled.accounts_carried
    transactionType := Bundled.checked_known.2.2.2.2 }

end Registry
end LedgerWire
