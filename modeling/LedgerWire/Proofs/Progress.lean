import LedgerWire.Proofs.Walks

/-!
Where readers get to: whether it gives a value or fails, a reader only moves onward in its buffer,
and bytes that it reports missing are missing at a place that it came to. One report is not of what
is missing there: a header that ends too early is reported from its first byte on.
-/

namespace LedgerWire

/-- A later place of the same buffer. -/
def Onward (before after : Cursor) : Prop := ∃ bytes, Passes before bytes after

/-- These bytes begin a header of a field, and do not end it. -/
def FieldHeader.Cut (bytes : Bytes) : Prop :=
  bytes ≠ [] ∧ ∃ (header : FieldHeader) (missing : Bytes), header.typeCode ≠ 0 ∧
    header.fieldCode ≠ 0 ∧ header.encode = bytes ++ missing ∧ missing ≠ []

/-- What a reader may report when it fails: bytes that are missing at a place it came to, a header
that is cut there, of which the next byte is missing, or something else. -/
inductive Reported (before : Cursor) : Error → Prop
  | short {place : Cursor} {needed : Nat} : Onward before place → place.remaining < needed →
      Reported before (.underrun place.position needed place.remaining)
  | cut {place : Cursor} : Onward before place → FieldHeader.Cut place.rest →
      Reported before (.underrun place.position 1 place.remaining)
  | other {e : Error} : (∀ offset needed remaining, e ≠ .underrun offset needed remaining) →
      Reported before e

/-- A reader that starts here moves onward, and reports what is missing on its way. -/
structure Advances {α : Type} (reader : Reader α) (before : Cursor) : Prop where
  reads : ∀ a after, reader before = .ok a after → Onward before after
  fails : ∀ e after, reader before = .error e after → Onward before after ∧ Reported before e

section Steps
variable {before middle after : Cursor}

theorem Reader.bind_pure_eq_error {α β : Type} {reader : Reader α} {wrap : α → β} {e : Error} :
    (reader >>= fun a => pure (wrap a)) before = .error e after ↔
      reader before = .error e after := by
  cases read : reader before with
  | ok a middle =>
    rw [bind_ok read]
    exact ⟨nofun, nofun⟩
  | error fault middle =>
    rw [bind_error _ read]
    exact ⟨fun h => by cases h; rfl, fun h => by cases h; rfl⟩

namespace Onward

theorem refl (cursor : Cursor) : Onward cursor cursor := ⟨[], .nothing cursor⟩

theorem trans (h : Onward before middle) (next : Onward middle after) : Onward before after := by
  obtain ⟨front, front_passed⟩ := h
  obtain ⟨back, back_passed⟩ := next
  exact ⟨front ++ back, front_passed.append back_passed⟩

theorem length_le (h : Onward before after) : after.rest.length ≤ before.rest.length := by
  obtain ⟨bytes, passed⟩ := h
  exact passed.length_le

theorem position_le (h : Onward before after) : before.position ≤ after.position := by
  obtain ⟨bytes, passed⟩ := h
  rw [passed.position]
  exact Nat.le_add_right _ _

theorem extent (h : Onward before after) :
    after.position + after.remaining = before.position + before.remaining := by
  obtain ⟨bytes, passed⟩ := h
  rw [Cursor.remaining, Cursor.remaining, passed.position, passed.rest, List.length_append,
    Nat.add_assoc]

theorem rest_eq_drop {buffer : Bytes} (h : Onward (.start buffer) after) :
    after.rest = buffer.drop after.position := by
  obtain ⟨bytes, passed⟩ := h
  have whole : buffer = bytes ++ after.rest := passed.rest
  have moved : after.position = 0 + bytes.length := passed.position
  rw [moved, Nat.zero_add, whole, List.drop_left]

end Onward

theorem Reported.back {e : Error} (h : Reported middle e) (onward : Onward before middle) :
    Reported before e := by
  cases h with
  | short further less => exact .short (onward.trans further) less
  | cut further cut => exact .cut (onward.trans further) cut
  | other not_underrun => exact .other not_underrun

namespace Advances
variable {α β : Type} {reader : Reader α} {next : α → Reader β}

theorem pure (a : α) (before : Cursor) : Advances (Pure.pure a : Reader α) before where
  reads _ _ h := by
    cases h
    exact .refl before
  fails := nofun

theorem throw {e : Error}
    (not_underrun : ∀ offset needed remaining, e ≠ .underrun offset needed remaining)
    (before : Cursor) : Advances (throw e : Reader α) before where
  reads := nofun
  fails _ _ h := by
    cases h
    exact ⟨.refl before, .other not_underrun⟩

theorem ofExcept {result : Except Error α}
    (not_underrun : ∀ offset needed remaining, result ≠ .error (.underrun offset needed remaining))
    (before : Cursor) : Advances (Reader.ofExcept result) before := by
  cases result with
  | error e =>
    exact throw (fun offset needed remaining same =>
      not_underrun offset needed remaining (congrArg Except.error same)) before
  | ok a => exact pure a before

theorem underrun {needed : Nat} (less : before.remaining < needed) :
    Advances (Reader.underrun needed : Reader α) before where
  reads := nofun
  fails _ _ h := by
    cases h
    exact ⟨.refl before, .short (.refl before) less⟩

theorem bind (h : Advances reader before)
    (each : ∀ a middle, reader before = .ok a middle → Advances (next a) middle) :
    Advances (reader >>= next) before where
  reads b after read := by
    obtain ⟨a, middle, first, second⟩ := Reader.bind_eq_ok.mp read
    exact (h.reads a middle first).trans ((each a middle first).reads b after second)
  fails e after failed := by
    cases first : reader before with
    | error fault place =>
      rw [Reader.bind_error next first] at failed
      cases failed
      exact h.fails e after first
    | ok a middle =>
      rw [Reader.bind_ok first] at failed
      have onward := h.reads a middle first
      obtain ⟨further, reported⟩ := (each a middle first).fails e after failed
      exact ⟨onward.trans further, reported.back onward⟩

theorem wrap {f : α → β} (h : Advances reader before) :
    Advances (reader >>= fun a => Pure.pure (f a)) before :=
  h.bind fun a middle _ => pure (f a) middle

theorem map {f : α → β} (h : Advances reader before) : Advances (f <$> reader) before := by
  rw [← bind_pure_comp]
  exact h.wrap

theorem get (before : Cursor) : Advances (MonadState.get : Reader Cursor) before where
  reads _ _ h := by
    cases h
    exact .refl before
  fails := nofun

theorem remaining (before : Cursor) : Advances Reader.remaining before :=
  (get before).wrap

theorem octets (n : Nat) (before : Cursor) : Advances (Reader.octets n) before where
  reads octets after read := ⟨octets.val, passes_octets read⟩
  fails e after failed := by
    simp only [Reader.octets] at failed
    split at failed
    · cases failed
    · rename_i short
      have less : before.remaining < n := by
        rw [List.length_take] at short
        rw [Cursor.remaining]
        omega
      exact (underrun less).fails e after failed

theorem byte (before : Cursor) : Advances Reader.byte before where
  reads b after read := ⟨[b], passes_byte read⟩
  fails e after failed := by
    obtain ⟨position, rest⟩ := before
    cases rest with
    | nil => exact (underrun Nat.one_pos).fails e after failed
    | cons first rest => cases failed

theorem peek (before : Cursor) : Advances Reader.peek before where
  reads b after read := by
    obtain ⟨position, rest⟩ := before
    cases rest with
    | nil => cases read
    | cons first rest =>
      cases read
      exact .refl _
  fails e after failed := by
    obtain ⟨position, rest⟩ := before
    cases rest with
    | nil => exact (underrun Nat.one_pos).fails e after failed
    | cons first rest => cases failed

theorem take (n : Nat) (before : Cursor) : Advances (Reader.take n) before :=
  (octets n before).wrap

theorem skip (n : Nat) (before : Cursor) : Advances (Reader.skip n) before :=
  (octets n before).wrap

theorem natural (width : Nat) (before : Cursor) : Advances (Reader.natural width) before :=
  (octets width before).wrap

theorem consumed (h : Advances reader before) : Advances (Reader.consumed reader) before := by
  refine (get before).bind fun start place looked => ?_
  cases looked
  exact h.bind fun _ middle _ => (get middle).wrap

theorem checkLength (type : String) (n : Nat) (announced : Option Nat) (before : Cursor) :
    Advances (LedgerWire.checkLength type n announced) before := by
  cases announced with
  | none => exact pure () before
  | some length =>
    simp only [LedgerWire.checkLength]
    split
    · exact pure () before
    · exact throw (by simp) before

theorem sized (type : String) (n : Nat) (announced : Option Nat) (value : Octets n → α)
    (before : Cursor) : Advances (do
      LedgerWire.checkLength type n announced
      return value (← Reader.octets n)) before :=
  (checkLength type n announced before).bind fun _ middle _ => (octets n middle).wrap

end Advances

namespace FieldHeader

theorem scanCode_starved {refuse : UInt8 → UnknownField} {half : UInt8} {offset needed left : Nat}
    (h : scanCode refuse half before = .error (.underrun offset needed left) after) :
    half = 0 ∧ before.rest = [] ∧ needed = 1 := by
  unfold scanCode at h
  by_cases zero : half = 0
  · rw [if_neg (not_not_intro zero)] at h
    obtain ⟨position, rest⟩ := before
    cases rest with
    | nil =>
      cases h
      exact ⟨zero, rfl, rfl⟩
    | cons code rest =>
      rw [Reader.bind_ok (Reader.byte_cons ..)] at h
      split at h <;> cases h
  · rw [if_pos zero] at h
    cases h

theorem cut_before_type {first : UInt8} (no_type : first / 16 = 0) : Cut [first] := by
  obtain ⟨-, low, whole⟩ := byte_of_halves first
  rw [no_type, UInt8.zero_mul, UInt8.zero_add] at whole
  rw [whole] at low
  refine ⟨List.cons_ne_nil _ _, ?_⟩
  by_cases no_field : first = 0
  · exact ⟨⟨16, 16⟩, [16, 16], by simp, by simp, by rw [no_field]; rfl, by simp⟩
  · refine ⟨⟨16, first⟩, [16], by simp, no_field, ?_, by simp⟩
    simp only [encode, low, if_true]
    rfl

theorem cut_before_field {first : UInt8} (some_type : first / 16 ≠ 0) (no_field : first % 16 = 0) :
    Cut [first] := by
  obtain ⟨high, -, whole⟩ := byte_of_halves first
  rw [no_field, UInt8.add_zero] at whole
  refine ⟨List.cons_ne_nil _ _, ⟨first / 16, 16⟩, [16], some_type, by simp, ?_, by simp⟩
  simp only [encode, high, if_true]
  rw [if_neg (by decide), whole]
  rfl

theorem cut_behind_type {typeCode : UInt8} (large : ¬ typeCode < 16) : Cut [0, typeCode] := by
  have nonzero : typeCode ≠ 0 := fun zero => large (by rw [zero]; decide)
  refine ⟨List.cons_ne_nil _ _, ⟨typeCode, 16⟩, [16], nonzero, by simp, ?_, by simp⟩
  simp only [encode, large, if_false]
  rw [if_neg (by decide)]
  rfl

theorem scan_starved {offset needed left : Nat}
    (h : scan before = .error (.underrun offset needed left) after) :
    needed = 1 ∧ (before.rest = [] ∨ Cut before.rest) := by
  obtain ⟨position, rest⟩ := before
  cases rest with
  | nil =>
    cases h
    exact ⟨rfl, .inl rfl⟩
  | cons first rest =>
    rw [scan, Reader.bind_ok (Reader.byte_cons ..)] at h
    cases type_read : scanCode .escapedTypeCode (first / 16) ⟨position + 1, rest⟩ with
    | error e place =>
      rw [Reader.bind_error _ type_read] at h
      cases h
      obtain ⟨no_type, rfl, rfl⟩ := scanCode_starved type_read
      exact ⟨rfl, .inr (cut_before_type no_type)⟩
    | ok typeCode place =>
      rw [Reader.bind_ok type_read] at h
      have field_read := Reader.bind_pure_eq_error.mp h
      obtain ⟨no_field, ends, rfl⟩ := scanCode_starved field_read
      refine ⟨rfl, .inr ?_⟩
      obtain ⟨some_type, rfl, rfl⟩ | ⟨no_type, large, passed⟩ := passes_scanCode type_read
      · obtain rfl : rest = [] := ends
        exact cut_before_field some_type no_field
      · have tail : rest = [typeCode] ++ place.rest := passed.rest
        obtain ⟨-, -, whole⟩ := byte_of_halves first
        rw [no_type, no_field] at whole
        rw [tail, ends, ← whole]
        exact cut_behind_type large

/-- A header that is cut is reported as if not even its first byte were there. -/
theorem read_cut (cut : Cut before.rest) :
    read before = .error (.underrun before.position 1 before.remaining) before := by
  obtain ⟨-, header, missing, type, code, whole, nonempty⟩ := cut
  obtain ⟨bytes, passed, delimits⟩ :=
    delimited_scan _ _ _ (scan_encode header type code before.position [])
  have same := passed.unique ⟨rfl, rfl⟩
  rw [same] at delimits
  obtain ⟨_, after, failed, offset, needed, left, rfl⟩ :=
    delimits.needsAll _ _ whole nonempty before.position
  obtain ⟨rfl, -⟩ := scan_starved failed
  rw [read, failed]
  rfl

theorem stays_read {e : Error} (h : read before = .error e after) : after = before := by
  unfold read at h
  split at h <;> cases h <;> rfl

theorem advances_read (before : Cursor) : Advances read before where
  reads header after read := ⟨header.encode, passes_read read⟩
  fails e after failed := by
    obtain rfl := stays_read failed
    refine ⟨.refl _, ?_⟩
    unfold read at failed
    split at failed
    · cases failed
    · rename_i scanned
      cases failed
      obtain ⟨rfl, ends | cut⟩ := scan_starved scanned
      · refine .short (.refl _) ?_
        rw [Cursor.remaining, ends]
        exact Nat.one_pos
      · exact .cut (.refl _) cut
    · rename_i not_underrun scanned
      cases failed
      exact .other not_underrun

end FieldHeader

theorem LengthPrefix.advances_read (before : Cursor) : Advances read before := by
  refine (Advances.byte before).bind fun first middle _ => ?_
  dsimp only
  split
  · exact .pure _ middle
  split
  · exact (Advances.byte middle).wrap
  split
  · refine (Advances.byte middle).bind fun _ middle _ => ?_
    refine (Advances.byte middle).bind fun _ last _ => ?_
    split
    · exact .pure _ last
    · exact .throw (by simp) last
  · exact .throw (by simp) middle

theorem Unsigned.advances_read (width : Width) (announced : Option Nat) (before : Cursor) :
    Advances (read width announced) before :=
  .sized _ _ _ _ before

theorem Hash.advances_read (width : HashWidth) (announced : Option Nat) (before : Cursor) :
    Advances (read width announced) before :=
  .sized _ _ _ _ before

theorem Currency.advances_read (announced : Option Nat) (before : Cursor) :
    Advances (read announced) before :=
  .sized _ _ _ _ before

theorem Quantity.advances_read (announced : Option Nat) (before : Cursor) :
    Advances (read announced) before :=
  .sized _ _ _ _ before

theorem AccountId.advances_read (announced : Option Nat) (before : Cursor) :
    Advances (read announced) before := by
  unfold read
  split
  · exact .pure _ before
  · exact .sized _ _ _ _ before

theorem Blob.advances_read (announced : Option Nat) (before : Cursor) :
    Advances (read announced) before :=
  (Advances.remaining before).bind fun _ middle _ => (Advances.take _ middle).wrap

namespace HashList

theorem exists_readHashes {count : Nat} (room : count * 32 ≤ before.rest.length) :
    ∃ hashes after, readHashes count before = .ok hashes after := by
  induction count generalizing before with
  | zero => exact ⟨[], before, rfl⟩
  | succ count ih =>
    have enough : (before.rest.take 32).length = 32 := by
      rw [List.length_take]
      omega
    have read : Reader.octets 32 before =
        .ok ⟨before.rest.take 32, enough⟩ ⟨before.position + 32, before.rest.drop 32⟩ :=
      dif_pos enough
    obtain ⟨hashes, after, others⟩ := @ih ⟨before.position + 32, before.rest.drop 32⟩ (by
      rw [List.length_drop]
      omega)
    refine ⟨⟨before.rest.take 32, enough⟩ :: hashes, after, ?_⟩
    rw [readHashes, Reader.bind_ok read, Reader.bind_ok others]
    rfl

theorem advances_read (announced : Option Nat) (before : Cursor) :
    Advances (read announced) before := by
  refine (Advances.remaining before).bind fun remaining middle _ => ?_
  dsimp only
  split
  · exact .throw (by simp) middle
  · refine (Advances.take _ middle).bind fun bytes last taken => ?_
    obtain ⟨-, length⟩ := passes_take taken
    obtain ⟨hashes, after, read⟩ := @exists_readHashes (.start bytes)
      (announced.getD remaining / 32) (by rw [Cursor.start, length]; omega)
    refine .ofExcept (fun offset needed left failed => ?_) last
    rw [Reader.runOn, read] at failed
    cases failed

end HashList

namespace Asset

theorem advances_readAny (before : Cursor) : Advances readAny before := by
  refine (Advances.octets 20 before).bind fun first middle _ => ?_
  split
  · exact .pure _ middle
  · refine (Advances.octets 20 middle).bind fun second middle _ => ?_
    split
    · exact (Advances.octets 4 middle).wrap
    · exact .pure _ middle

theorem advances_read (announced : Option Nat) (before : Cursor) :
    Advances (read announced) before :=
  (advances_readAny before).bind fun _ middle _ => (Advances.checkLength _ _ _ middle).wrap

end Asset

namespace Bridge

theorem advances_readDoor (before : Cursor) : Advances readDoor before := by
  refine (Advances.byte before).bind fun length middle _ => ?_
  split
  · exact .throw (by simp) middle
  · exact (Advances.octets 20 middle).wrap

theorem advances_read (before : Cursor) : Advances read before :=
  (advances_readDoor before).bind fun _ middle _ =>
    (Asset.advances_readAny middle).bind fun _ middle _ =>
      (advances_readDoor middle).bind fun _ middle _ => (Asset.advances_readAny middle).wrap

end Bridge

theorem PathStep.advances_read (kind : UInt8) (before : Cursor) :
    Advances (read kind) before := by
  have part {α : Type} (present : Bool) (wrap : Octets 20 → α) (before : Cursor) :
      Advances (readIf present wrap) before := by
    cases present with
    | false => exact .pure none before
    | true => exact (Advances.octets 20 before).wrap
  unfold read
  split
  · exact .throw (by simp) before
  · exact (part _ _ before).bind fun _ middle _ => (part _ _ middle).bind fun _ middle _ =>
      (part _ _ middle).wrap

namespace PathSet

theorem advances_readPaths {rounds : Nat} (enough : before.rest.length ≤ rounds)
    (paths : List (List PathStep)) (path : List PathStep) :
    Advances (readPaths rounds paths path) before := by
  induction rounds generalizing before paths path with
  | zero => exact .underrun (Nat.lt_succ_of_le enough)
  | succ rounds ih =>
    refine (Advances.byte before).bind fun kind middle read => ?_
    have fewer := (passes_byte read).length_lt (List.cons_ne_nil _ _)
    split
    · dsimp only
      split
      · exact .throw (by simp) middle
      · split <;> exact .pure _ middle
    split
    · split
      · exact .throw (by simp) middle
      · exact ih (by omega) _ _
    · refine (PathStep.advances_read kind middle).bind fun step last step_read => ?_
      have further := ((PathStep.advances_read kind middle).reads _ _ step_read).length_le
      exact ih (by omega) _ _

theorem advances_read (before : Cursor) : Advances read before := by
  refine (Advances.remaining before).bind fun rounds middle looked => ?_
  cases looked
  exact (advances_readPaths (Nat.le_refl _) [] []).wrap

end PathSet

namespace Amount

theorem advances_read (announced : Option Nat) (before : Cursor) :
    Advances (read announced) before := by
  refine (Advances.peek before).bind fun first middle _ => ?_
  split
  · exact (Advances.checkLength _ _ _ middle).bind fun _ middle _ =>
      (Advances.natural 8 middle).wrap
  · refine (Advances.checkLength _ _ _ middle).bind fun _ middle _ => ?_
    refine (Advances.octets 48 middle).bind fun octets last _ => ?_
    dsimp only
    split
    · exact .pure _ last
    · exact .throw (by simp) last

end Amount

theorem Leaf.advances_read (type : LeafType) (announced : Option Nat) (before : Cursor) :
    Advances (read type announced) before := by
  cases type with
  | unsigned width => exact (Unsigned.advances_read width announced before).wrap
  | hash width => exact (Hash.advances_read width announced before).wrap
  | blob => exact (Blob.advances_read announced before).wrap
  | currency => exact (Currency.advances_read announced before).wrap
  | account => exact (AccountId.advances_read announced before).wrap
  | amount => exact (Amount.advances_read announced before).wrap
  | asset => exact (Asset.advances_read announced before).wrap
  | hashes => exact (HashList.advances_read announced before).wrap
  | number => exact (Quantity.advances_read announced before).wrap
  | paths => exact (PathSet.advances_read before).wrap
  | bridge => exact (Bridge.advances_read before).wrap

namespace Registry
variable (registry : Registry)

theorem advances_field (before : Cursor) : Advances (Reader.field registry) before := by
  refine (FieldHeader.advances_read before).bind fun header middle _ => .ofExcept ?_ middle
  intro offset needed remaining failed
  unfold fieldOfHeader at failed
  split at failed <;> cases failed

variable {registry} {rounds : Nat}

def AdvancesWithin {α : Type} (rounds : Nat) (reader : Reader α) : Prop :=
  ∀ before, before.rest.length ≤ rounds → Advances reader before

theorem advances_announcement (field : Field) (before : Cursor) :
    Advances (announcement field) before := by
  unfold announcement
  split
  · exact (LengthPrefix.advances_read before).map
  · exact .pure none before

theorem valueWith_eq (entries : Reader (List Entry)) (elements : Reader (List Element))
    (field : Field) : Reader.valueWith entries elements field =
      Reader.ofExcept field.wireType >>= fun type => announcement field >>= fun announced =>
        match type with
        | .leaf type => return .leaf (← Leaf.read type announced)
        | .object => return .object (← Reader.consumed entries).2
        | .array => return .array (← Reader.consumed elements).2 := by
  unfold Reader.valueWith announcement
  cases field.variableLength <;> rfl

theorem advances_valueWith {entries : Reader (List Entry)} {elements : Reader (List Element)}
    (within_entries : AdvancesWithin rounds entries)
    (within_elements : AdvancesWithin rounds elements) (field : Field) :
    AdvancesWithin rounds (Reader.valueWith entries elements field) := by
  intro before enough
  rw [valueWith_eq]
  refine (Advances.ofExcept ?_ before).bind fun type middle typed => ?_
  · intro offset needed remaining failed
    unfold Field.wireType at failed
    split at failed <;> cases failed
  obtain ⟨-, rfl⟩ := Reader.ofExcept_eq_ok.mp typed
  refine (advances_announcement field before).bind fun announced middle read => ?_
  have further := ((advances_announcement field before).reads _ _ read).length_le
  cases type with
  | leaf type => exact (Leaf.advances_read type announced middle).wrap
  | object => exact (within_entries middle (by omega)).consumed.wrap
  | array => exact (within_elements middle (by omega)).consumed.wrap

theorem advances_entriesWith {readValue : Field → Reader Value}
    (within : ∀ field, AdvancesWithin rounds (readValue field)) (left : Nat) :
    AdvancesWithin rounds (Reader.entriesWith registry readValue left) := by
  induction left with
  | zero => exact fun before _ => .pure [] before
  | succ left ih =>
    intro before enough
    refine (Advances.get before).bind fun place middle looked => ?_
    cases looked
    split
    · exact .pure [] before
    refine (advances_field registry before).bind fun field middle named => ?_
    have behind := ((advances_field registry before).reads _ _ named).length_le
    split
    · exact .pure [] middle
    refine (within field middle (by omega)).bind fun value last read => ?_
    have further := ((within field middle (by omega)).reads _ _ read).length_le
    exact (ih last (by omega)).wrap

theorem advances_elementsWith {entries : Reader (List Entry)}
    (within : AdvancesWithin rounds entries) {left : Nat} (bound : left ≤ rounds) {before : Cursor}
    (enough : before.rest.length ≤ left) :
    Advances (Reader.elementsWith registry entries left) before := by
  induction left generalizing before with
  | zero => exact .underrun (Nat.lt_succ_of_le enough)
  | succ left ih =>
    refine (advances_field registry before).bind fun field middle named => ?_
    obtain ⟨-, header, passed, nonempty⟩ := heads_of_read named
    have fewer := passed.length_lt nonempty
    split
    · exact .pure [] middle
    split
    · exact .throw (by simp) middle
    · have body := (within middle (by omega)).consumed
      refine body.bind fun element last read => ?_
      have further := (body.reads _ _ read).length_le
      exact (ih (by omega) (by omega)).wrap

variable (registry) in
theorem advances_containers (rounds levels : Nat) :
    AdvancesWithin rounds (Reader.entries registry rounds levels) ∧
      AdvancesWithin rounds (Reader.elements registry rounds levels) := by
  induction levels with
  | zero =>
    have refused {α : Type} (type : WireType) (before : Cursor) :
        Advances (Reader.ofExcept (tooDeep type : Except Error α)) before :=
      .ofExcept (by simp [tooDeep]) before
    exact ⟨fun before _ => refused .object before, fun before _ => refused .array before⟩
  | succ levels ih =>
    obtain ⟨entries, elements⟩ := ih
    exact ⟨advances_entriesWith (advances_valueWith entries elements) rounds,
      fun _ enough => advances_elementsWith entries (Nat.le_refl rounds) enough⟩

end Registry
end Steps
end LedgerWire
