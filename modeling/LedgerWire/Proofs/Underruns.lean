import LedgerWire.Proofs.Progress
import LedgerWire.Proofs.ContainerRendering

/-!
What is said to be missing when bytes are decoded: the place is one of the buffer, and more bytes
are needed there than are left, unless a header is cut there. Then the report is of the next byte of
the header, but as if it were the first one.
-/

namespace LedgerWire.Registry
variable {registry : Registry} {bytes : Bytes}

theorem reported_of_decodeBytes {e : Error} (h : registry.decodeBytes bytes = .error e) :
    Reported (.start bytes) e := by
  have enough : (Cursor.start bytes).rest.length ≤ bytes.length := Nat.le_refl _
  unfold decodeBytes at h
  split at h
  · rename_i failed
    cases h
    have advances := (advances_containers registry bytes.length topLevels).1 _ enough
    exact (advances.consumed.fails _ _ failed).2
  · rename_i entries object after read
    obtain ⟨entries_read, rfl⟩ := Reader.consumed_eq_ok read
    obtain ⟨visits, walk, -⟩ := (entries_iff_walk enough).mp entries_read
    obtain ⟨front, passed⟩ := walk.passes
    split at h
    · obtain ⟨-, json, rendered⟩ := shown_of_walk walk passed
      rw [passed.consumed, (render_eq_present topLevels).1, rendered] at h
      cases h
    · cases h
      exact .other (by simp)

theorem decodeBytes_cut_header (cut : FieldHeader.Cut bytes) :
    registry.decodeBytes bytes = .error (.underrun 0 1 bytes.length) := by
  have unread : FieldHeader.read (.start bytes) =
      .error (.underrun 0 1 bytes.length) (.start bytes) := FieldHeader.read_cut cut
  obtain ⟨rounds, counted⟩ := Nat.exists_eq_succ_of_ne_zero (mt List.length_eq_zero_iff.mp cut.1)
  have filled : (Cursor.start bytes).rest.isEmpty = false := by simp [Cursor.start, cut.1]
  have starved : Reader.entries registry bytes.length topLevels (.start bytes) =
      .error (.underrun 0 1 bytes.length) (.start bytes) := by
    rw [counted, topLevels, Reader.entries, Reader.entriesWith,
      Reader.bind_ok (Reader.get_apply _), filled, ← counted]
    exact Reader.bind_error _ (Reader.bind_error _ unread)
  rw [decodeBytes, Reader.consumed, Reader.bind_ok (Reader.get_apply _),
    Reader.bind_error _ starved]

variable (registry) in
/-- Where bytes are reported missing, the place is one of the buffer with what is left there, and
more are needed than are left, but for a header that is cut there: of that one byte is said to be
needed, though some are left. A buffer that is no more than a cut header is always reported so. -/
theorem underruns_reported :
    (∀ bytes offset needed remaining,
      registry.decodeBytes bytes = .error (.underrun offset needed remaining) →
        offset + remaining = bytes.length ∧
          (needed ≤ remaining ↔ needed = 1 ∧ FieldHeader.Cut (bytes.drop offset))) ∧
    ∀ bytes, FieldHeader.Cut bytes →
      registry.decodeBytes bytes = .error (.underrun 0 1 bytes.length) := by
  refine ⟨fun bytes offset needed remaining h => ?_, fun bytes cut => decodeBytes_cut_header cut⟩
  have whole {place : Cursor} (onward : Onward (.start bytes) place) :
      place.position + place.remaining = bytes.length ∧ bytes.drop place.position = place.rest :=
    ⟨onward.extent.trans (Nat.zero_add _), onward.rest_eq_drop.symm⟩
  cases reported_of_decodeBytes h with
  | short onward less =>
    obtain ⟨extent, behind⟩ := whole onward
    refine ⟨extent, fun enough => absurd enough (Nat.not_le_of_lt less), fun ⟨one, cut⟩ => ?_⟩
    rw [one] at less
    rw [behind] at cut
    exact absurd (List.length_eq_zero_iff.mp (Nat.lt_one_iff.mp less)) cut.1
  | cut onward cut =>
    obtain ⟨extent, behind⟩ := whole onward
    rw [behind]
    exact ⟨extent, fun _ => ⟨rfl, cut⟩, fun _ => List.length_pos_iff.mpr cut.1⟩
  | other not_underrun => exact absurd rfl (not_underrun offset needed remaining)

theorem underruns_reported_transactionType :
    bundled.decodeBytes [0x12, 0x00] = .error (.underrun 1 2 1) ∧
    1 + 1 = ([0x12, 0x00] : Bytes).length ∧ ¬ 2 ≤ 1 ∧ FieldHeader.Cut [0x20] ∧
    bundled.decodeBytes [0x20] = .error (.underrun 0 1 1) := by
  have read : bundled.decodeBytes [0x12, 0x00] = .error (.underrun 1 2 1) := by
    rw [bundled_eq]
    rfl
  have cut : FieldHeader.Cut [0x20] :=
    ⟨by decide, ⟨2, 16⟩, [16], by decide, by decide, by decide, by decide⟩
  obtain ⟨reported, headers⟩ := underruns_reported bundled
  obtain ⟨extent, misreported⟩ := reported _ _ _ _ read
  exact ⟨read, extent, fun enough => absurd (misreported.mp enough).1 (by decide), cut,
    headers _ cut⟩

/-- One byte is left of a header of two, and is reported as if it were missing: what is needed is
less than what is there. -/
theorem cut_header_misreported :
    bundled.decodeBytes [0x20] = .error (.underrun 0 1 1) ∧
      ¬ (0 + 1 = ([0x20] : Bytes).length ∧ 1 < 1) := by
  refine ⟨?_, fun truthful => absurd truthful.2 (Nat.lt_irrefl 1)⟩
  rw [bundled_eq]
  rfl

end LedgerWire.Registry
