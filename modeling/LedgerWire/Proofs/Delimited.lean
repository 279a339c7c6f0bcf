import LedgerWire.Proofs.Consumption
import LedgerWire.Value.Read

/-!
Readers that find their own end: what they take gives the same value whatever follows it, and a part
of it is refused because bytes are missing. Headers, length prefixes and leaves are read so, but for
lists and opaque bytes with no length in front of them, which take the whole rest of the buffer.
-/

namespace LedgerWire

/-- A buffer ended where more bytes were needed. -/
def Starved (e : Error) : Prop :=
  ∃ offset needed remaining, e = .underrun offset needed remaining

def Starves {α : Type} (reader : Reader α) (bytes : Bytes) : Prop :=
  ∀ position, ∃ e after, reader ⟨position, bytes⟩ = .error e after ∧ Starved e

def NeedsAll {α : Type} (reader : Reader α) (bytes : Bytes) : Prop :=
  ∀ front missing, bytes = front ++ missing → missing ≠ [] → Starves reader front

/-- The reader takes exactly these bytes for a value, and needs all of them. -/
structure Delimits {α : Type} (reader : Reader α) (bytes : Bytes) (a : α) : Prop where
  reads : Reads reader bytes a
  needsAll : NeedsAll reader bytes

/-- The reader finds its own end. -/
def Delimited {α : Type} (reader : Reader α) : Prop :=
  ∀ before after a, reader before = .ok a after →
    ∃ bytes, Passes before bytes after ∧ Delimits reader bytes a

theorem Passes.unique {before after : Cursor} {bytes bytes' : Bytes}
    (h : Passes before bytes after) (h' : Passes before bytes' after) : bytes = bytes' := by
  have same := h'.rest
  rw [h.rest] at same
  exact List.append_cancel_right same

theorem cut_append {front missing first second : Bytes}
    (whole : first ++ second = front ++ missing) :
    (∃ tail, first = front ++ tail ∧ tail ≠ []) ∨
      ∃ back, front = first ++ back ∧ second = back ++ missing := by
  obtain ⟨back, front_eq, second_eq⟩ | ⟨tail, first_eq, missing_eq⟩ :=
    List.append_eq_append_iff.mp whole
  · exact .inr ⟨back, front_eq, second_eq⟩
  · by_cases empty : tail = []
    · subst empty
      rw [List.append_nil] at first_eq
      exact .inr ⟨[], by rw [first_eq, List.append_nil], missing_eq.symm⟩
    · exact .inl ⟨tail, first_eq, empty⟩

section Steps
variable {α β : Type} {reader : Reader α} {next : α → Reader β} {bytes front back : Bytes} {a : α}
  {b : β}

theorem starves_underrun {n : Nat} (h : ∀ position, reader ⟨position, bytes⟩ =
    Reader.underrun n ⟨position, bytes⟩) : Starves reader bytes :=
  fun position => ⟨_, _, h position, _, _, _, rfl⟩

theorem Starves.bind (h : Starves reader bytes) : Starves (reader >>= next) bytes := by
  intro position
  obtain ⟨e, after, failed, starved⟩ := h position
  exact ⟨e, after, Reader.bind_error next failed, starved⟩

theorem Reads.starves (h : Reads reader front a) (then_starves : Starves (next a) back) :
    Starves (reader >>= next) (front ++ back) := by
  intro position
  rw [Reader.bind_ok (h position back)]
  exact then_starves _

theorem needsAll_nil (reader : Reader α) : NeedsAll reader [] :=
  fun _ _ whole nonempty => absurd (List.append_eq_nil_iff.mp whole.symm).2 nonempty

theorem NeedsAll.bind (h : NeedsAll reader front) (reads : Reads reader front a)
    (then_needs : NeedsAll (next a) back) : NeedsAll (reader >>= next) (front ++ back) := by
  intro start missing whole nonempty
  obtain ⟨tail, inside, tail_nonempty⟩ | ⟨place, rfl, behind⟩ := cut_append whole
  · exact (h start tail inside tail_nonempty).bind
  · exact reads.starves (then_needs place missing behind nonempty)

theorem needsAll_byte (b : UInt8) : NeedsAll Reader.byte [b] := by
  intro front missing whole nonempty
  obtain ⟨rfl, -⟩ | ⟨-, nothing⟩ := List.singleton_eq_append_iff.mp whole
  · exact starves_underrun fun position => rfl
  · exact absurd nothing nonempty

theorem Delimits.pure (a : α) : Delimits (Pure.pure a) [] a := ⟨Reads.pure a, needsAll_nil _⟩

theorem Delimits.bind (h : Delimits reader front a) (then_delimits : Delimits (next a) back b) :
    Delimits (reader >>= next) (front ++ back) b :=
  ⟨h.reads.bind then_delimits.reads, h.needsAll.bind h.reads then_delimits.needsAll⟩

namespace Delimited

theorem pure (a : α) : Delimited (Pure.pure a : Reader α) := by
  intro before after _ h
  cases h
  exact ⟨[], .nothing _, .pure a⟩

theorem throw (e : Error) : Delimited (throw e : Reader α) := nofun

theorem ofExcept (result : Except Error α) : Delimited (Reader.ofExcept result) := by
  cases result with
  | error e => exact throw e
  | ok a => exact pure a

theorem bind (h : Delimited reader) (each : ∀ a, Delimited (next a)) :
    Delimited (reader >>= next) := by
  intro before after b read
  obtain ⟨a, middle, first, second⟩ := Reader.bind_eq_ok.mp read
  obtain ⟨front, front_passed, front_delimits⟩ := h _ _ _ first
  obtain ⟨back, back_passed, back_delimits⟩ := each a _ _ _ second
  exact ⟨_, front_passed.append back_passed, front_delimits.bind back_delimits⟩

theorem map {f : α → β} (h : Delimited reader) : Delimited (f <$> reader) := by
  rw [← bind_pure_comp]
  exact h.bind fun a => pure (f a)

theorem octets (n : Nat) : Delimited (Reader.octets n) := by
  intro before after octets read
  refine ⟨octets.val, passes_octets read, .octets octets, fun front missing whole nonempty => ?_⟩
  have positive := List.length_pos_iff.mpr nonempty
  have length := octets.property
  rw [whole, List.length_append] at length
  have short : ¬ (front.take n).length = n := by
    rw [List.length_take]
    omega
  exact starves_underrun fun position => dif_neg short

theorem byte : Delimited Reader.byte :=
  fun _ _ b read => ⟨[b], passes_byte read, .byte b, needsAll_byte b⟩

theorem take (n : Nat) : Delimited (Reader.take n) := (octets n).bind fun _ => pure _

theorem checkLength (type : String) (n : Nat) (announced : Option Nat) :
    Delimited (LedgerWire.checkLength type n announced) := by
  cases announced with
  | none => exact pure ()
  | some length =>
    simp only [LedgerWire.checkLength]
    split
    · exact pure ()
    · exact throw _

theorem look {next : Nat → Reader α} (same : ∀ n, next n = next 0) (h : Delimited (next 0)) :
    Delimited (Reader.remaining >>= next) := by
  have whole : Reader.remaining >>= next = next 0 := by
    funext cursor
    obtain ⟨n, seen⟩ := remaining_ok cursor
    rw [Reader.bind_ok seen, same]
  rw [whole]
  exact h

theorem peek {next : UInt8 → Reader α} (each : ∀ first, Delimited (next first))
    (moves : ∀ first before after a, next first before = .ok a after →
      after.rest.length < before.rest.length) : Delimited (Reader.peek >>= next) := by
  intro before after a read
  obtain ⟨first, middle, looked, read⟩ := Reader.bind_eq_ok.mp read
  obtain ⟨position, rest⟩ := before
  cases rest with
  | nil => cases looked
  | cons byte rest =>
    cases looked
    obtain ⟨bytes, passed, delimits⟩ := each first _ _ _ read
    have fewer := moves _ _ _ _ read
    obtain ⟨back, rfl⟩ : ∃ back, bytes = first :: back := by
      have shape := passed.rest
      cases bytes with
      | nil =>
        rw [shape] at fewer
        exact absurd fewer (Nat.lt_irrefl _)
      | cons other back =>
        cases shape
        exact ⟨back, rfl⟩
    refine ⟨_, passed, .peek rfl delimits.reads, fun front missing whole nonempty position => ?_⟩
    cases front with
    | nil => exact starves_underrun (fun position => rfl) position
    | cons other front =>
      have starved := delimits.needsAll _ _ whole nonempty position
      cases whole
      exact starved

end Delimited
end Steps

namespace FieldHeader

theorem delimited_scanCode (refuse : UInt8 → UnknownField) (half : UInt8) :
    Delimited (scanCode refuse half) := by
  unfold scanCode
  split
  · exact .pure half
  · refine .bind .byte fun code => ?_
    split
    · exact .throw _
    · exact .pure code

theorem delimited_scan : Delimited scan := by
  refine .bind .byte fun first => ?_
  refine .bind (delimited_scanCode _ _) fun typeCode => ?_
  exact .bind (delimited_scanCode _ _) fun fieldCode => .pure _

theorem delimited_read : Delimited read := by
  intro before after header h
  have scanned : scan before = .ok header after := by
    unfold read at h
    split at h
    · rename_i scanned
      cases h
      exact scanned
    · cases h
    · cases h
  obtain ⟨bytes, passed, delimits⟩ := delimited_scan _ _ _ scanned
  refine ⟨bytes, passed, fun position rest => ?_, fun front missing whole nonempty position => ?_⟩
  · rw [read, delimits.reads position rest]
  · obtain ⟨_, left, failed, offset, needed, remaining, rfl⟩ :=
      delimits.needsAll front missing whole nonempty position
    refine ⟨_, ⟨position, front⟩, ?_, position, needed, front.length, rfl⟩
    rw [read, failed]
    rfl

end FieldHeader

theorem LengthPrefix.delimited_read : Delimited read := by
  refine .bind .byte fun first => ?_
  dsimp only
  split
  · exact .pure _
  split
  · exact .bind .byte fun second => .pure _
  split
  · refine .bind .byte fun second => .bind .byte fun third => ?_
    split
    · exact .pure _
    · exact .throw _
  · exact .throw _

theorem Registry.delimited_field (registry : Registry) : Delimited (Reader.field registry) :=
  .bind FieldHeader.delimited_read fun _ => .ofExcept _

theorem Unsigned.delimited_read (width : Width) (announced : Option Nat) :
    Delimited (read width announced) :=
  .bind (.checkLength _ _ _) fun _ => .bind (.octets _) fun _ => .pure _

theorem Hash.delimited_read (width : HashWidth) (announced : Option Nat) :
    Delimited (read width announced) :=
  .bind (.checkLength _ _ _) fun _ => .bind (.octets _) fun _ => .pure _

theorem Currency.delimited_read (announced : Option Nat) : Delimited (read announced) :=
  .bind (.checkLength _ _ _) fun _ => .bind (.octets _) fun _ => .pure _

theorem Quantity.delimited_read (announced : Option Nat) : Delimited (read announced) :=
  .bind (.checkLength _ _ _) fun _ => .bind (.octets _) fun _ => .pure _

theorem AccountId.delimited_read (announced : Option Nat) : Delimited (read announced) := by
  unfold read
  split
  · exact .pure _
  · exact .bind (.checkLength _ _ _) fun _ => .bind (.octets _) fun _ => .pure _

theorem Blob.delimited_read (length : Nat) : Delimited (read (some length)) :=
  .look (fun _ => rfl) (.bind (.take length) fun _ => .pure _)

theorem HashList.delimited_read (length : Nat) : Delimited (read (some length)) := by
  refine .look (fun _ => rfl) ?_
  dsimp only [Option.getD_some]
  split
  · exact .throw _
  · exact .bind (.take length) fun _ => .ofExcept _

namespace Asset

theorem delimited_readAny : Delimited readAny := by
  refine .bind (.octets 20) fun first => ?_
  split
  · exact .pure _
  · refine .bind (.octets 20) fun second => ?_
    split
    · exact .bind (.octets 4) fun sequence => .pure _
    · exact .pure _

theorem delimited_read (announced : Option Nat) : Delimited (read announced) :=
  .bind delimited_readAny fun _ => .bind (.checkLength _ _ _) fun _ => .pure _

end Asset

namespace Bridge

theorem delimited_readDoor : Delimited readDoor := by
  refine .bind .byte fun length => ?_
  split
  · exact .throw _
  · exact .bind (.octets 20) fun _ => .pure _

theorem delimited_read : Delimited read :=
  .bind delimited_readDoor fun _ => .bind Asset.delimited_readAny fun _ =>
    .bind delimited_readDoor fun _ => .bind Asset.delimited_readAny fun _ => .pure _

end Bridge

theorem PathStep.delimited_read (kind : UInt8) : Delimited (read kind) := by
  have part {α : Type} (present : Bool) (wrap : Octets 20 → α) :
      Delimited (readIf present wrap) := by
    cases present with
    | false => exact .pure none
    | true => exact .bind (.octets 20) fun _ => .pure _
  unfold read
  split
  · exact .throw _
  · exact .bind (part _ _) fun _ => .bind (part _ _) fun _ => .bind (part _ _) fun _ => .pure _

namespace PathSet

theorem needsAll_round {paths : List (List PathStep)} {path : List PathStep} {kind : UInt8}
    {bytes : Bytes} (round : ∀ left, ∃ next,
      readPaths (left + 1) paths path = Reader.byte >>= next ∧ NeedsAll (next kind) bytes)
    (left : Nat) : NeedsAll (readPaths left paths path) ([kind] ++ bytes) := by
  cases left with
  | zero => exact fun _ _ _ _ => starves_underrun fun _ => rfl
  | succ left =>
    obtain ⟨next, shape, needs⟩ := round left
    rw [shape]
    exact (needsAll_byte kind).bind (.byte kind) needs

theorem needsAll_readPaths {rounds : Nat} {paths result : List (List PathStep)}
    {path : List PathStep} {before after : Cursor}
    (h : readPaths rounds paths path before = .ok result after) :
    ∃ bytes, Passes before bytes after ∧ ∀ left, NeedsAll (readPaths left paths path) bytes := by
  induction rounds generalizing before paths path with
  | zero => cases h
  | succ rounds ih =>
    cases readPaths_eq_ok.mp h with
    | nothing kind_read | last kind_read =>
      exact ⟨_, passes_byte kind_read, needsAll_round fun left => ⟨_, rfl, needsAll_nil _⟩⟩
    | separates kind_read nonempty rest_read =>
      obtain ⟨bytes, passed, needs⟩ := ih rest_read
      refine ⟨_, (passes_byte kind_read).append passed, needsAll_round fun left => ⟨_, rfl, ?_⟩⟩
      obtain ⟨step, path, rfl⟩ := List.exists_cons_of_ne_nil nonempty
      exact needs left
    | step kind_read no_end no_separator step_read rest_read =>
      obtain ⟨step_bytes, step_passed, step_delimits⟩ :=
        PathStep.delimited_read _ _ _ _ step_read
      obtain ⟨bytes, passed, needs⟩ := ih rest_read
      refine ⟨_, (passes_byte kind_read).append (step_passed.append passed),
        needsAll_round fun left => ⟨_, rfl, ?_⟩⟩
      rw [if_neg no_end, if_neg no_separator]
      exact step_delimits.needsAll.bind step_delimits.reads (needs left)

theorem delimited_read : Delimited read := by
  intro before after set h
  have passed := passes_read h
  refine ⟨set.toBytes, passed, read_toBytes (canonical_of_read h), ?_⟩
  obtain ⟨rounds, middle, looked, h⟩ := Reader.bind_eq_ok.mp h
  cases looked
  obtain ⟨paths, paths_read, rfl⟩ := Reader.bind_pure_eq_ok.mp h
  obtain ⟨bytes, paths_passed, needs⟩ := needsAll_readPaths paths_read
  rw [passed.unique paths_passed]
  intro front missing whole nonempty position
  have counted : Reader.remaining ⟨position, front⟩ = .ok front.length ⟨position, front⟩ := rfl
  rw [read, Reader.bind_ok counted]
  exact (needs front.length front missing whole nonempty).bind position

end PathSet

namespace Amount

theorem shorter_of_octets {n : Nat} {before after : Cursor} {octets : Octets n} (positive : 0 < n)
    (h : Reader.octets n before = .ok octets after) :
    after.rest.length < before.rest.length := by
  refine (passes_octets h).length_lt (List.ne_nil_of_length_pos ?_)
  rw [octets.property]
  exact positive

theorem delimited_readIssued : Delimited readIssued := by
  refine .bind (.octets 48) fun octets => ?_
  dsimp only
  split
  · exact .pure _
  · exact .throw _

theorem delimited_read (announced : Option Nat) : Delimited (read announced) := by
  refine .peek (fun first => ?_) fun first before after amount h => ?_
  · split
    · exact .bind (.checkLength _ _ _) fun _ => .bind (.bind (.octets 8) fun _ => .pure _)
        fun _ => .pure _
    · exact .bind (.checkLength _ _ _) fun _ => delimited_readIssued
  · split at h
    · obtain ⟨-, h⟩ := checkLength_bind_eq_ok.mp h
      obtain ⟨word, word_read, rfl⟩ := Reader.bind_pure_eq_ok.mp h
      obtain ⟨octets, read, rfl⟩ := Reader.bind_pure_eq_ok.mp word_read
      exact shorter_of_octets (by decide) read
    · obtain ⟨-, h⟩ := checkLength_bind_eq_ok.mp h
      obtain ⟨octets, last, read, h⟩ := Reader.bind_eq_ok.mp h
      have fewer := shorter_of_octets (by decide) read
      split at h
      · cases h
        exact fewer
      · cases h

end Amount

namespace Leaf

/-- The type of lists and of opaque bytes, which need a length in front of them. -/
def NeedsLength (type : LeafType) : Prop := type = .blob ∨ type = .hashes

theorem delimited_read (type : LeafType) {announced : Option Nat}
    (lengthened : NeedsLength type → announced.isSome = true) :
    Delimited (read type announced) := by
  cases type with
  | unsigned width => exact .bind (Unsigned.delimited_read width announced) fun _ => .pure _
  | hash width => exact .bind (Hash.delimited_read width announced) fun _ => .pure _
  | blob =>
    obtain ⟨length, rfl⟩ := Option.isSome_iff_exists.mp (lengthened (.inl rfl))
    exact .bind (Blob.delimited_read length) fun _ => .pure _
  | currency => exact .bind (Currency.delimited_read announced) fun _ => .pure _
  | account => exact .bind (AccountId.delimited_read announced) fun _ => .pure _
  | amount => exact .bind (Amount.delimited_read announced) fun _ => .pure _
  | asset => exact .bind (Asset.delimited_read announced) fun _ => .pure _
  | hashes =>
    obtain ⟨length, rfl⟩ := Option.isSome_iff_exists.mp (lengthened (.inr rfl))
    exact .bind (HashList.delimited_read length) fun _ => .pure _
  | number => exact .bind (Quantity.delimited_read announced) fun _ => .pure _
  | paths => exact .bind PathSet.delimited_read fun _ => .pure _
  | bridge => exact .bind Bridge.delimited_read fun _ => .pure _

theorem read_unannounced {type : LeafType} (needs : NeedsLength type) (cursor : Cursor) :
    read type none cursor = read type (some cursor.rest.length) cursor := by
  rcases needs with rfl | rfl <;> rfl

theorem exhausts {type : LeafType} (needs : NeedsLength type) {leaf : Leaf} {before after : Cursor}
    (h : read type (some before.rest.length) before = .ok leaf after) : after.rest = [] := by
  have nothing {bytes : Bytes} (passed : Passes before bytes after)
      (length : before.rest.length = bytes.length) : after.rest = [] := by
    rw [passed.rest, List.length_append] at length
    exact List.length_eq_zero_iff.mp (by omega)
  rcases needs with rfl | rfl
  · obtain ⟨blob, blob_read, rfl⟩ := Reader.bind_pure_eq_ok.mp h
    obtain ⟨passed, length⟩ := Blob.passes_read blob_read
    exact nothing passed length
  · obtain ⟨list, list_read, rfl⟩ := Reader.bind_pure_eq_ok.mp h
    obtain ⟨passed, length⟩ := HashList.passes_read list_read
    exact nothing passed length

end Leaf
end LedgerWire
