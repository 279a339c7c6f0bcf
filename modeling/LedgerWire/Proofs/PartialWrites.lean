import LedgerWire.Proofs.Fields
import LedgerWire.Proofs.Runs

/-!
What a failed write leaves behind. Bytes with their length in front of them are written whole or not
at all. So is a field, but for one whose payload no length prefix can express: its header stands
before the length is looked at.
-/

namespace LedgerWire

theorem LengthPrefix.encode_eq_error {length : Nat} {e : Error} :
    encode length = .error e ↔
      maxPrefixedLength < length ∧ e = .lengthPrefix (.tooLong length) := by
  unfold encode
  split
  · rename_i one
    exact ⟨nofun, fun h => absurd h.1 (by unfold maxPrefixedLength; omega)⟩
  split
  · rename_i two
    exact ⟨nofun, fun h => absurd h.1 (by unfold maxPrefixedLength; omega)⟩
  split
  · rename_i three
    exact ⟨nofun, fun h => absurd h.1 (Nat.not_lt.mpr three)⟩
  · rename_i long
    refine ⟨fun h => ⟨Nat.lt_of_not_le long, (Except.error.inj h).symm⟩, ?_⟩
    rintro ⟨-, rfl⟩
    rfl

namespace Writer

/-- The writer adds to the bytes that are there, or fails and leaves them as they are. -/
structure Atomic (writer : Writer Unit) : Prop where
  grows : ∀ before after, writer before = .ok () after → before <+: after
  stays : ∀ before e after, writer before = .error e after → after = before

theorem lengthEncoded_of_encode {bytes front : Bytes}
    (encoded : LengthPrefix.encode bytes.length = .ok front) (before : Bytes) :
    lengthEncoded bytes before = .ok () (before ++ front ++ bytes) := by
  rw [lengthEncoded, encoded]
  rfl

theorem lengthEncoded_of_error {bytes : Bytes} {e : Error}
    (refused : LengthPrefix.encode bytes.length = .error e) (before : Bytes) :
    lengthEncoded bytes before = .error e before := by
  rw [lengthEncoded, refused]
  rfl

theorem atomic_lengthEncoded (bytes : Bytes) : Atomic (lengthEncoded bytes) := by
  cases encoded : LengthPrefix.encode bytes.length with
  | ok front =>
    constructor
    · intro before after h
      rw [lengthEncoded_of_encode encoded] at h
      cases h
      exact ⟨front ++ bytes, by simp⟩
    · intro before e after h
      rw [lengthEncoded_of_encode encoded] at h
      cases h
  | error fault =>
    constructor
    · intro before after h
      rw [lengthEncoded_of_error encoded] at h
      cases h
    · intro before e after h
      rw [lengthEncoded_of_error encoded] at h
      cases h
      rfl

/-- The value of the field is to stand behind its length, and no prefix can express that. -/
structure Oversized (field : Field) (value : Bytes) (omitPayload : Bool) : Prop where
  prefixed : field.variableLength = true
  kept : omitPayload = false
  long : maxPrefixedLength < value.length

section Field
variable {field : Field} {value : Bytes} {omitPayload : Bool}

theorem field_unheaded (unheaded : field.header? = none) (before : Bytes) :
    Writer.field field value omitPayload before =
      .error (.unknownField (.name field.name)) before := by
  rw [Writer.field, Field.header, unheaded]
  rfl

variable {header : FieldHeader} (coded : field.header? = some header)
include coded

theorem field_headed (before : Bytes) :
    Writer.field field value omitPayload before =
      (if field.variableLength then lengthEncoded (if omitPayload then [] else value)
        else put value) (before ++ header.encode) := by
  rw [Writer.field, Registry.header_eq_ok.mpr coded]
  rfl

theorem field_oversized (oversized : Oversized field value omitPayload) (before : Bytes) :
    Writer.field field value omitPayload before =
      .error (.lengthPrefix (.tooLong value.length)) (before ++ header.encode) := by
  obtain ⟨prefixed, rfl, long⟩ := oversized
  have refused := LengthPrefix.encode_eq_error.mpr ⟨long, rfl⟩
  rw [field_headed coded, if_pos prefixed]
  exact lengthEncoded_of_error refused (before ++ header.encode)

theorem field_of_fits (fits : ¬ Oversized field value omitPayload) (before : Bytes) :
    ∃ payload, Writer.field field value omitPayload before =
      .ok () (before ++ header.encode ++ payload) := by
  rw [field_headed coded]
  split
  · rename_i prefixed
    cases encoded : LengthPrefix.encode (if omitPayload then [] else value).length with
    | ok front =>
      refine ⟨front ++ if omitPayload then [] else value, ?_⟩
      rw [lengthEncoded_of_encode encoded, List.append_assoc _ front]
    | error e =>
      obtain ⟨long, -⟩ := LengthPrefix.encode_eq_error.mp encoded
      cases omitPayload with
      | false => exact absurd ⟨prefixed, rfl, long⟩ fits
      | true => exact absurd long (Nat.not_lt_zero _)
  · exact ⟨value, rfl⟩

end Field

/-- The ways in which the writing of a field can fail, with what it then leaves. -/
inductive FieldFails (field : Field) (value : Bytes) (omitPayload : Bool) (before : Bytes) :
    Error → Bytes → Prop
  | unheaded : field.header? = none →
      FieldFails field value omitPayload before (.unknownField (.name field.name)) before
  | oversized {header : FieldHeader} : field.header? = some header →
      Oversized field value omitPayload →
      FieldFails field value omitPayload before (.lengthPrefix (.tooLong value.length))
        (before ++ header.encode)

section Outcome
variable {field : Field} {value : Bytes} {omitPayload : Bool} {before after : Bytes} {e : Error}

theorem field_cases (field : Field) (value : Bytes) (omitPayload : Bool) (before : Bytes) :
    (∃ added, Writer.field field value omitPayload before = .ok () (before ++ added)) ∨
      ∃ e after, Writer.field field value omitPayload before = .error e after ∧
        FieldFails field value omitPayload before e after := by
  cases coded : field.header? with
  | none => exact .inr ⟨_, _, field_unheaded coded before, .unheaded coded⟩
  | some header =>
    by_cases oversized : Oversized field value omitPayload
    · exact .inr ⟨_, _, field_oversized coded oversized before, .oversized coded oversized⟩
    · obtain ⟨payload, made⟩ := field_of_fits coded oversized before
      exact .inl ⟨header.encode ++ payload, by rw [made, List.append_assoc]⟩

theorem field_eq_error :
    Writer.field field value omitPayload before = .error e after ↔
      FieldFails field value omitPayload before e after := by
  constructor
  · intro h
    obtain ⟨added, made⟩ | ⟨e', after', failed, fails⟩ :=
      field_cases field value omitPayload before
    · rw [made] at h
      cases h
    · rw [failed] at h
      cases h
      exact fails
  · intro h
    cases h with
    | unheaded unheaded => exact field_unheaded unheaded before
    | oversized coded oversized => exact field_oversized coded oversized before

theorem field_extends (h : Writer.field field value omitPayload before = .ok () after) :
    before <+: after := by
  obtain ⟨added, made⟩ | ⟨e, after', failed, -⟩ := field_cases field value omitPayload before
  · rw [made] at h
    cases h
    exact List.prefix_append before added
  · rw [failed] at h
    cases h

end Outcome

/-- A field that is written is added to what is there. One that has no header leaves it as it is;
one that is too long for a length prefix leaves its header behind, so that the writing of a field
is atomic exactly if no header can be left. -/
theorem field_atomic_iff (field : Field) (value : Value) (omitPayload : Bool) :
    (∀ before after, Writer.field field value.toBytes omitPayload before = .ok () after →
      before <+: after) ∧
    (∀ before e after, Writer.field field value.toBytes omitPayload before = .error e after ↔
      FieldFails field value.toBytes omitPayload before e after) ∧
    (Atomic (Writer.field field value.toBytes omitPayload) ↔
      field.header? = none ∨ ¬ Oversized field value.toBytes omitPayload) := by
  refine ⟨fun _ _ => field_extends, fun _ _ _ => field_eq_error, fun atomic => ?_, fun sound =>
    ⟨fun _ _ => field_extends, fun before e after h => ?_⟩⟩
  · cases coded : field.header? with
    | none => exact .inl rfl
    | some header =>
      refine .inr fun oversized => header.encode_ne_nil ?_
      have left := atomic.stays [] _ _ (field_oversized coded oversized [])
      rwa [List.nil_append] at left
  · cases field_eq_error.mp h with
    | unheaded => rfl
    | oversized coded oversized =>
      rcases sound with unheaded | fits
      · rw [coded] at unheaded
        cases unheaded
      · exact absurd oversized fits

def memoData : Field := ⟨"MemoData", 13, true, true, true, "Blob", 7⟩

theorem field_atomic_iff_memoData :
    Registry.bundled.field? "MemoData" = some memoData ∧
    Writer.field memoData (Value.leaf (.blob ⟨[0xAB]⟩)).toBytes false [0xEA] =
      .ok () [0xEA, 0x7D, 0x01, 0xAB] ∧
    ([0xEA] : Bytes) <+: [0xEA, 0x7D, 0x01, 0xAB] := by
  have listed : Registry.bundled.field? "MemoData" = some memoData := by
    rw [Registry.bundled_eq]
    rfl
  have written : Writer.field memoData (Value.leaf (.blob ⟨[0xAB]⟩)).toBytes false [0xEA] =
      .ok () [0xEA, 0x7D, 0x01, 0xAB] := rfl
  exact ⟨listed, written, (field_atomic_iff memoData _ false).1 _ _ written⟩

/-- A text that is one byte too long for a length prefix fails, and leaves the header of its field
where nothing was. -/
theorem oversized_memo_leaves_header :
    Registry.bundled.field? "MemoData" = some memoData ∧
    Writer.field memoData (Value.leaf (.blob ⟨List.replicate 918745 0⟩)).toBytes false [] =
      .error (.lengthPrefix (.tooLong 918745)) [0x7D] ∧
    ¬ Atomic (Writer.field memoData (Value.leaf (.blob ⟨List.replicate 918745 0⟩)).toBytes
      false) := by
  have listed : Registry.bundled.field? "MemoData" = some memoData := by
    rw [Registry.bundled_eq]
    rfl
  have length : (Value.leaf (.blob ⟨List.replicate 918745 0⟩)).toBytes.length = 918745 :=
    List.length_replicate
  have oversized : Oversized memoData
      (Value.leaf (.blob ⟨List.replicate 918745 0⟩)).toBytes false :=
    ⟨rfl, rfl, by rw [length]; decide⟩
  have coded : memoData.header? = some ⟨7, 13⟩ := by decide
  have left := field_oversized coded oversized []
  rw [length] at left
  refine ⟨listed, left, fun atomic => ?_⟩
  cases atomic.stays [] _ _ left

end Writer
end LedgerWire
