import LedgerWire.Proofs.Walks

namespace LedgerWire.Registry
variable {registry : Registry} {field : Field} {before middle after : Cursor} {value : Value}

structure OmitsAccount (field : Field) (payload : Cursor) : Prop where
  typed : field.wireType? = some (.leaf .account)
  length : ∃ after, LengthPrefix.read payload = .ok 0 after

/-- The bytes of a value, behind their length where the field has one. -/
def Framed (field : Field) (value payload : Bytes) : Prop :=
  field.variableLength = false ∧ payload = value ∨
    field.variableLength = true ∧
      ∃ front, LengthPrefix.encode value.length = .ok front ∧ payload = front ++ value

theorem framed_or_omitted {leaf : Leaf} (typed : field.wireType? = some (.leaf leaf.type))
    (prefixed : field.variableLength = (WireType.leaf leaf.type).prefixed) {payload : Bytes}
    (passed : Passes before payload after) (spelled : LeafBytes field leaf payload) :
    ¬ OmitsAccount field before ∧ Framed field leaf.toBytes payload ∨
      OmitsAccount field before ∧ leaf = .account .zero ∧ payload = [0] := by
  obtain ⟨position, rest⟩ := before
  obtain rfl : rest = payload ++ after.rest := passed.rest
  cases spelled with
  | plain plain =>
    refine .inl ⟨fun omitted => ?_, .inl ⟨plain, rfl⟩⟩
    have account := typed.symm.trans omitted.typed
    rw [Option.some.inj account, plain] at prefixed
    cases prefixed
  | @lengthened _ front variable_length encoded =>
    refine .inl ⟨fun omitted => ?_, .inr ⟨variable_length, front, encoded, rfl⟩⟩
    obtain ⟨behind, length_read⟩ := omitted.length
    have counted := LengthPrefix.read_encode encoded position (leaf.toBytes ++ after.rest)
    rw [List.append_assoc, counted] at length_read
    injection length_read with nothing
    have account := typed.symm.trans omitted.typed
    cases leaf with
    | account account =>
      rw [Leaf.toBytes, AccountId.length_bytes] at nothing
      cases nothing
    | _ => cases account
  | omitted => exact .inr ⟨⟨typed, _, rfl⟩, rfl, rfl⟩

theorem payload_of_read (lawful : registry.Lawful) (known : registry.Known field)
    {rounds levels : Nat} (enough : before.rest.length ≤ rounds)
    (h : Reader.valueAt registry rounds levels field before = .ok value after) :
    ∃ payload, Passes before payload after ∧
      (¬ OmitsAccount field before ∧ Framed field value.toBytes payload ∨
        OmitsAccount field before ∧ value = .leaf (.account .zero) ∧ payload = [0]) := by
  have container (kind : Container) (typed : field.wireType? = some kind.type) :
      ∃ payload, Passes before payload after ∧
        (¬ OmitsAccount field before ∧ Framed field value.toBytes payload) := by
    rw [valueAt_container typed, announcement_container lawful known typed] at h
    obtain ⟨_, _, nothing, h⟩ := Reader.bind_eq_ok.mp h
    cases nothing
    rw [← bind_pure_comp] at h
    obtain ⟨bytes, read, rfl⟩ := Reader.bind_pure_eq_ok.mp h
    obtain ⟨-, -, passed⟩ := walk_of_containerBytes (walks rounds levels) enough read
    have prefixed := known.variableLength lawful typed
    refine ⟨bytes, passed, fun omitted => ?_, .inl ⟨?_, ?_⟩⟩
    · have account := typed.symm.trans omitted.typed
      cases kind <;> cases account
    · cases kind <;> exact prefixed
    · cases kind <;> rfl
  obtain ⟨type, typed, -⟩ := readAs_of_valueAt h
  cases type with
  | leaf type =>
    obtain ⟨leaf, payload, json, rfl, passed, spelled⟩ := spelledLeaf_of_read lawful known typed h
    refine ⟨payload, passed, ?_⟩
    obtain framed | ⟨omitted, rfl, bytes⟩ :=
      framed_or_omitted spelled.typed (known.variableLength lawful spelled.typed) passed
        spelled.bytes
    · exact .inl framed
    · exact .inr ⟨omitted, rfl, bytes⟩
  | object =>
    obtain ⟨payload, passed, framed⟩ := container .object typed
    exact ⟨payload, passed, .inl framed⟩
  | array =>
    obtain ⟨payload, passed, framed⟩ := container .array typed
    exact ⟨payload, passed, .inl framed⟩

section Written
variable {header : FieldHeader} (coded : field.header? = some header)
include coded

theorem fieldBytes_framed {value payload : Bytes} (framed : Framed field value payload) :
    Writer.fieldBytes field value false = .ok (header.encode ++ payload) :=
  written_eq_ok.mpr ⟨header, payload, coded, rfl, framed⟩

theorem fieldBytes_omitted (prefixed : field.variableLength = true) (value : Bytes) :
    Writer.fieldBytes field value true = .ok (header.encode ++ [0]) :=
  written_eq_ok.mpr ⟨header, [0], coded, rfl, .inr ⟨prefixed, [0], rfl, rfl⟩⟩

theorem fieldBytes_zero (prefixed : field.variableLength = true) :
    Writer.fieldBytes field AccountId.zero.bytes false =
      .ok (header.encode ++ ([20] ++ AccountId.zero.bytes)) :=
  written_eq_ok.mpr ⟨header, _, coded, rfl, .inr ⟨prefixed, [20], rfl, rfl⟩⟩

end Written

theorem writes_iff {value written : Bytes} {omitPayload : Bool} {sink : Bytes} :
    Writer.field field value omitPayload sink = .ok () (sink ++ written) ↔
      Writer.fieldBytes field value omitPayload = .ok written := by
  have appends := Writer.appends_field field value omitPayload
  cases made : Writer.fieldBytes field value omitPayload with
  | error e =>
    rw [made] at appends
    obtain ⟨left, failed⟩ := appends sink
    rw [failed]
    exact ⟨nofun, nofun⟩
  | ok bytes =>
    rw [made] at appends
    rw [appends sink]
    simp

theorem rewrites (lawful : registry.Lawful)
    (named : Reader.field registry before = .ok field middle) {rounds levels : Nat}
    (enough : middle.rest.length ≤ rounds)
    (read : Reader.valueAt registry rounds levels field middle = .ok value after) :
    ∃ bytes, Passes before bytes after ∧
      (¬ OmitsAccount field middle →
        Writer.fieldBytes field value.toBytes false = .ok bytes) ∧
      (OmitsAccount field middle →
        Writer.fieldBytes field value.toBytes true = .ok bytes ∧
        Writer.fieldBytes field value.toBytes false ≠ .ok bytes) := by
  obtain ⟨heads, front, passed_header, -⟩ := heads_of_read named
  obtain ⟨header, coded, whole⟩ := heads.coded
  rw [passed_header.rest] at whole
  rw [List.append_cancel_right whole] at passed_header
  obtain ⟨payload, passed, framed | ⟨omitted, rfl, rfl⟩⟩ :=
    payload_of_read lawful heads.known enough read
  · exact ⟨_, passed_header.append passed, fun _ => fieldBytes_framed coded framed.2,
      fun omitted => absurd omitted framed.1⟩
  · have prefixed := heads.known.variableLength lawful omitted.typed
    refine ⟨_, passed_header.append passed, fun regular => absurd omitted regular,
      fun _ => ⟨fieldBytes_omitted coded prefixed _, ?_⟩⟩
    change Writer.fieldBytes field AccountId.zero.bytes false ≠ _
    rw [fieldBytes_zero coded prefixed]
    simp

/-- A field that was read anywhere in a buffer, at any depth, is written again as the bytes that
were passed, from its header on. An account of no length is so as well where it is written without
its payload, and only there. -/
theorem pass_through (rounds levels : Nat) (before middle after : Cursor) (field : Field)
    (value : Value) (enough : middle.rest.length ≤ rounds)
    (named : Reader.field bundled before = .ok field middle)
    (read : Reader.valueAt bundled rounds levels field middle = .ok value after) :
    ∃ bytes, Passes before bytes after ∧
      (¬ OmitsAccount field middle → ∀ sink,
        Writer.field field value.toBytes false sink = .ok () (sink ++ bytes)) ∧
      (OmitsAccount field middle → ∀ sink,
        Writer.field field value.toBytes true sink = .ok () (sink ++ bytes) ∧
        Writer.field field value.toBytes false sink ≠ .ok () (sink ++ bytes)) := by
  obtain ⟨bytes, passed, regular, omitted⟩ := rewrites bundled_lawful named enough read
  refine ⟨bytes, passed, fun whole sink => writes_iff.mpr (regular whole), fun empty sink => ?_⟩
  obtain ⟨written, other⟩ := omitted empty
  exact ⟨writes_iff.mpr written, fun same => other (writes_iff.mp same)⟩

theorem checked_accountAndFlags : ∃ account flags : Field,
    Reader.field bundled ⟨3, [0x81, 0, 0x22, 0, 0, 0, 7]⟩ =
      .ok account ⟨4, [0, 0x22, 0, 0, 0, 7]⟩ ∧
    Reader.value bundled account ⟨4, [0, 0x22, 0, 0, 0, 7]⟩ =
      .ok (.leaf (.account .zero)) ⟨5, [0x22, 0, 0, 0, 7]⟩ ∧
    account.wireType? = some (.leaf .account) ∧
    Reader.field bundled ⟨5, [0x22, 0, 0, 0, 7]⟩ = .ok flags ⟨6, [0, 0, 0, 7]⟩ ∧
    Reader.value bundled flags ⟨6, [0, 0, 0, 7]⟩ =
      .ok (.leaf (.unsigned ⟨.four, 7, by decide⟩)) ⟨10, []⟩ ∧
    flags.wireType? = some (.leaf (.unsigned .four)) := by
  rw [bundled_eq]
  exact ⟨⟨"Account", 1, true, true, true, "AccountID", 8⟩,
    ⟨"Flags", 2, false, true, true, "UInt32", 2⟩, by rfl, by rfl, by decide, by rfl, by rfl,
    by decide⟩

/-- An account of no length, which is written without its payload, and flags behind it, which are
written with theirs. -/
theorem pass_through_account : ∃ account flags : Field,
    Reader.field bundled ⟨3, [0x81, 0, 0x22, 0, 0, 0, 7]⟩ =
      .ok account ⟨4, [0, 0x22, 0, 0, 0, 7]⟩ ∧
    Reader.value bundled account ⟨4, [0, 0x22, 0, 0, 0, 7]⟩ =
      .ok (.leaf (.account .zero)) ⟨5, [0x22, 0, 0, 0, 7]⟩ ∧
    (∀ sink, Writer.field account AccountId.zero.bytes true sink = .ok () (sink ++ [0x81, 0])) ∧
    Reader.field bundled ⟨5, [0x22, 0, 0, 0, 7]⟩ = .ok flags ⟨6, [0, 0, 0, 7]⟩ ∧
    Reader.value bundled flags ⟨6, [0, 0, 0, 7]⟩ =
      .ok (.leaf (.unsigned ⟨.four, 7, by decide⟩)) ⟨10, []⟩ ∧
    ∀ sink, Writer.field flags [0, 0, 0, 7] false sink =
      .ok () (sink ++ [0x22, 0, 0, 0, 7]) := by
  obtain ⟨account, flags, account_named, account_read, account_typed, flags_named, flags_read,
    flags_typed⟩ := checked_accountAndFlags
  obtain ⟨bytes, passed, -, omitted⟩ :=
    pass_through 6 topLevels _ _ _ account _ (Nat.le_refl _) account_named account_read
  have whole : [0x81, 0] ++ [0x22, 0, 0, 0, 7] = bytes ++ [0x22, 0, 0, 0, 7] := passed.rest
  obtain rfl := List.append_cancel_right whole
  obtain ⟨bytes, passed, written, -⟩ :=
    pass_through 4 topLevels _ _ _ flags _ (Nat.le_refl _) flags_named flags_read
  obtain rfl : [0x22, 0, 0, 0, 7] = bytes := passed.rest.trans (List.append_nil bytes)
  have regular : ¬ OmitsAccount flags ⟨6, [0, 0, 0, 7]⟩ := by
    intro omits
    have typed := omits.typed
    rw [flags_typed] at typed
    cases typed
  exact ⟨account, flags, account_named, account_read,
    fun sink => (omitted ⟨account_typed, _, rfl⟩ sink).1, flags_named, flags_read, written regular⟩

end LedgerWire.Registry
