import LedgerWire.Proofs.LeafRendering

namespace LedgerWire

theorem Unsigned.width_of_ofNat {width : Width} {value : Nat} {u : Unsigned}
    (h : ofNat width value = .ok u) : u.width = width := by
  unfold ofNat at h
  split at h
  · cases h
    rfl
  · cases h

theorem Unsigned.width_of_ofDigits {width : Width} {text : String} {u : Unsigned}
    (h : ofDigits width text = .ok u) : u.width = width := by
  simp only [ofDigits] at h
  split at h
  · cases h
  split at h
  · exact width_of_ofNat h
  · cases h

theorem Unsigned.width_of_ofNumeral {width : Width} {number : Numeral} {u : Unsigned}
    (h : ofNumeral width number = .ok u) : u.width = width := by
  unfold ofNumeral at h
  split at h
  · exact width_of_ofNat h
  · cases h

theorem Unsigned.width_of_ofJson {width : Width} {json : Json} {u : Unsigned}
    (h : ofJson width json = .ok u) : u.width = width := by
  unfold ofJson at h
  split at h
  · exact width_of_ofNumeral h
  · simp only [ofHex] at h
    split at h
    · split at h
      · exact width_of_ofNat h
      · cases h
    · cases h
  · exact width_of_ofDigits h
  · cases h
  · cases h

theorem Unsigned.width_of_ofDecimalJson {json : Json} {u : Unsigned}
    (h : ofDecimalJson json = .ok u) : u.width = .eight := by
  unfold ofDecimalJson at h
  split at h
  · exact width_of_ofDigits h
  · exact width_of_ofNumeral h
  · cases h

theorem Hash.width_of_ofJson {width : HashWidth} {json : Json} {hash : Hash}
    (h : ofJson width json = .ok hash) : hash.width = width := by
  obtain ⟨text, -, h⟩ := bind_eq_ok.mp h
  split at h
  · cases h
    rfl
  · obtain ⟨bytes, -, h⟩ := bind_eq_ok.mp h
    obtain ⟨octets, -, h⟩ := bind_eq_ok.mp h
    cases h
    rfl

theorem PathStep.kind_of_ofJson {json : Json} {step : PathStep} (h : ofJson json = .ok step) :
    step.kind ≠ 0 := by
  unfold ofJson at h
  split at h
  · obtain ⟨account, -, h⟩ := bind_eq_ok.mp h
    obtain ⟨currency, -, h⟩ := bind_eq_ok.mp h
    obtain ⟨issuer, -, h⟩ := bind_eq_ok.mp h
    obtain ⟨filled, made⟩ := refuse_eq_ok.mp h
    cases made
    exact filled
  · cases h

theorem PathSet.canonical_of_ofJson {json : Json} {set : PathSet} (h : ofJson json = .ok set) :
    set.Canonical := by
  unfold ofJson at h
  split at h
  · obtain ⟨paths, each, h⟩ := bind_eq_ok.mp h
    obtain ⟨filled, made⟩ := refuse_eq_ok.mp h
    cases made
    intro path member
    refine ⟨?_, fun step in_path => ?_⟩
    · rintro rfl
      exact filled (List.any_eq_true.mpr ⟨[], member, rfl⟩)
    · obtain ⟨item, -, built⟩ := exists_left_of_mem (mapM_eq_ok.mp each) member
      cases item with
      | array steps =>
        obtain ⟨json, -, read⟩ := exists_left_of_mem (mapM_eq_ok.mp built) in_path
        exact PathStep.kind_of_ofJson read
      | _ => cases built
  · cases h

section Read
variable {before after : Cursor}

theorem Asset.canonical_of_readAny {asset : Asset} (h : readAny before = .ok asset after) :
    asset.Canonical := by
  obtain ⟨first, middle, -, h⟩ := Reader.bind_eq_ok.mp h
  split at h
  · cases h
    trivial
  · rename_i nonzero
    obtain ⟨second, middle, -, h⟩ := Reader.bind_eq_ok.mp h
    split at h
    · obtain ⟨sequence, -, rfl⟩ := Reader.bind_pure_eq_ok.mp h
      exact Bool.eq_false_of_not_eq_true nonzero
    · rename_i unreserved
      cases h
      exact ⟨Bool.eq_false_of_not_eq_true nonzero,
        fun same => unreserved (congrArg AccountId.octets same)⟩

theorem Asset.canonical_of_read {announced : Option Nat} {asset : Asset}
    (h : read announced before = .ok asset after) : asset.Canonical := by
  obtain ⟨asset, middle, first, h⟩ := Reader.bind_eq_ok.mp h
  obtain ⟨-, middle, -, h⟩ := Reader.bind_eq_ok.mp h
  cases h
  exact canonical_of_readAny first

theorem Bridge.canonical_of_read {bridge : Bridge} (h : read before = .ok bridge after) :
    bridge.Canonical := by
  obtain ⟨door, middle, -, h⟩ := Reader.bind_eq_ok.mp h
  obtain ⟨locking, middle, locking_read, h⟩ := Reader.bind_eq_ok.mp h
  obtain ⟨door, middle, -, h⟩ := Reader.bind_eq_ok.mp h
  obtain ⟨issuing, issuing_read, rfl⟩ := Reader.bind_pure_eq_ok.mp h
  exact ⟨Asset.canonical_of_readAny locking_read, Asset.canonical_of_readAny issuing_read⟩

theorem PathStep.isSome_of_readIf {α : Type} {present : Bool} {wrap : Octets 20 → α}
    {part : Option α} (h : readIf present wrap before = .ok part after) :
    part.isSome = present := by
  cases present with
  | false =>
    cases h
    rfl
  | true =>
    obtain ⟨octets, -, rfl⟩ := Reader.bind_pure_eq_ok.mp h
    rfl

theorem forall_byte {p : UInt8 → Prop} (h : ∀ n : Fin 256, p (UInt8.ofNat n.val)) (b : UInt8) :
    p b := by
  have this := h ⟨b.toNat, b.toNat_lt⟩
  rwa [UInt8.ofNat_toNat] at this

theorem PathStep.kind_of_bits : ∀ kind : UInt8, kind &&& 0xCE = 0 →
    (if decide (kind &&& 0x01 ≠ 0) then 0x01 else 0) +
      (if decide (kind &&& 0x10 ≠ 0) then 0x10 else 0) +
      (if decide (kind &&& 0x20 ≠ 0) then 0x20 else 0) = kind :=
  forall_byte (by decide +kernel)

theorem PathStep.kind_of_read {kind : UInt8} {step : PathStep}
    (h : read kind before = .ok step after) : step.kind = kind := by
  unfold read at h
  split at h
  · cases h
  rename_i clean
  obtain ⟨account, middle, account_read, h⟩ := Reader.bind_eq_ok.mp h
  obtain ⟨currency, middle, currency_read, h⟩ := Reader.bind_eq_ok.mp h
  obtain ⟨issuer, issuer_read, rfl⟩ := Reader.bind_pure_eq_ok.mp h
  rw [PathStep.kind, isSome_of_readIf account_read, isSome_of_readIf currency_read,
    isSome_of_readIf issuer_read]
  exact kind_of_bits kind (by simpa using clean)

/-- What a round of the loop found where the loop ends with paths: the end of a set without paths,
the end of the last path, the end of another path, or a step. -/
inductive PathSet.PathsRound (rounds : Nat) : List (List PathStep) → List PathStep → Cursor →
    List (List PathStep) → Cursor → Prop
  | nothing {before after : Cursor} :
      Reader.byte before = .ok terminator after → PathsRound rounds [] [] before [] after
  | last {before after : Cursor} {paths : List (List PathStep)} {path : List PathStep} :
      Reader.byte before = .ok terminator after → path ≠ [] →
      PathsRound rounds paths path before (paths ++ [path]) after
  | separates {before middle after : Cursor} {paths result : List (List PathStep)}
      {path : List PathStep} :
      Reader.byte before = .ok separator middle → path ≠ [] →
      readPaths rounds (paths ++ [path]) [] middle = .ok result after →
      PathsRound rounds paths path before result after
  | step {before start middle after : Cursor} {paths result : List (List PathStep)}
      {path : List PathStep} {kind : UInt8} {step : PathStep} :
      Reader.byte before = .ok kind start → kind ≠ terminator → kind ≠ separator →
      PathStep.read kind start = .ok step middle →
      readPaths rounds paths (path ++ [step]) middle = .ok result after →
      PathsRound rounds paths path before result after

theorem PathSet.readPaths_eq_ok {rounds : Nat} {paths result : List (List PathStep)}
    {path : List PathStep} :
    readPaths (rounds + 1) paths path before = .ok result after ↔
      PathsRound rounds paths path before result after := by
  constructor
  · intro h
    obtain ⟨kind, middle, kind_read, h⟩ := Reader.bind_eq_ok.mp h
    split at h
    · rename_i ends
      subst ends
      cases path with
      | cons step path =>
        cases h
        exact .last kind_read (List.cons_ne_nil step path)
      | nil =>
        cases paths with
        | cons => cases h
        | nil =>
          cases h
          exact .nothing kind_read
    split at h
    · rename_i separates
      subst separates
      cases path with
      | nil => cases h
      | cons step path => exact .separates kind_read (List.cons_ne_nil step path) h
    · rename_i no_end no_separator
      obtain ⟨step, _, step_read, h⟩ := Reader.bind_eq_ok.mp h
      exact .step kind_read no_end no_separator step_read h
  · intro h
    rw [readPaths]
    cases h with
    | nothing kind_read =>
      rw [Reader.bind_ok kind_read]
      rfl
    | last kind_read nonempty =>
      obtain ⟨step, path, rfl⟩ := List.exists_cons_of_ne_nil nonempty
      rw [Reader.bind_ok kind_read]
      rfl
    | separates kind_read nonempty rest_read =>
      obtain ⟨step, path, rfl⟩ := List.exists_cons_of_ne_nil nonempty
      rw [Reader.bind_ok kind_read]
      exact rest_read
    | step kind_read no_end no_separator step_read rest_read =>
      rw [Reader.bind_ok kind_read, if_neg no_end, if_neg no_separator, Reader.bind_ok step_read]
      exact rest_read

theorem PathSet.canonical_append {paths : List (List PathStep)} {path : List PathStep}
    (canonical : Canonical ⟨paths⟩) (filled : ∀ step ∈ path, step.kind ≠ 0) (nonempty : path ≠ []) :
    Canonical ⟨paths ++ [path]⟩ := by
  intro other member
  rcases List.mem_append.mp member with member | member
  · exact canonical other member
  · rw [List.mem_singleton.mp member]
    exact ⟨nonempty, filled⟩

theorem PathSet.canonical_of_readPaths {rounds : Nat} {paths result : List (List PathStep)}
    {path : List PathStep} (h : readPaths rounds paths path before = .ok result after)
    (canonical : Canonical ⟨paths⟩) (filled : ∀ step ∈ path, step.kind ≠ 0) :
    Canonical ⟨result⟩ := by
  induction rounds generalizing before paths path with
  | zero => cases h
  | succ rounds ih =>
    cases readPaths_eq_ok.mp h with
    | nothing => exact canonical
    | last _ nonempty => exact canonical_append canonical filled nonempty
    | separates _ nonempty rest_read =>
      exact ih rest_read (canonical_append canonical filled nonempty) nofun
    | step _ no_end _ step_read rest_read =>
      refine ih rest_read canonical fun other member => ?_
      rcases List.mem_append.mp member with member | member
      · exact filled other member
      · rw [List.mem_singleton.mp member, PathStep.kind_of_read step_read]
        exact no_end

theorem PathSet.canonical_of_read {set : PathSet} (h : read before = .ok set after) :
    set.Canonical := by
  obtain ⟨rounds, middle, -, h⟩ := Reader.bind_eq_ok.mp h
  obtain ⟨paths, paths_read, rfl⟩ := Reader.bind_pure_eq_ok.mp h
  exact canonical_of_readPaths paths_read nofun nofun

theorem Amount.canonical_of_read {announced : Option Nat} {amount : Amount}
    (h : read announced before = .ok amount after) : amount.Canonical := by
  obtain ⟨first, middle, -, h⟩ := Reader.bind_eq_ok.mp h
  split at h
  · obtain ⟨-, middle, -, h⟩ := Reader.bind_eq_ok.mp h
    obtain ⟨word, -, rfl⟩ := Reader.bind_pure_eq_ok.mp h
    trivial
  · obtain ⟨-, middle, -, h⟩ := Reader.bind_eq_ok.mp h
    obtain ⟨octets, middle, -, h⟩ := Reader.bind_eq_ok.mp h
    split at h
    · rename_i normal
      cases h
      simpa [Canonical, issuedOfWord, exponentUnit] using normal
    · cases h

end Read

namespace Leaf

/-- A leaf as JSON builds it, where its bytes stand for it. -/
def Settled : Leaf → Prop
  | .amount value => value.Settled
  | .number value => value.Settled
  | leaf => leaf.Canonical

theorem canonical_of_settled {leaf : Leaf} (h : leaf.Settled) : leaf.Canonical := by
  cases leaf with
  | amount value => exact Amount.canonical_of_settled h
  | number => trivial
  | _ => exact h

theorem ofJson_toJson {leaf : Leaf} (h : leaf.Settled) :
    ∃ json, leaf.toJson = .ok json ∧ ofJson leaf.type json = .ok leaf := by
  cases leaf with
  | unsigned value => exact ⟨_, rfl, map_eq_ok.mpr ⟨_, value.ofJson_toJson, rfl⟩⟩
  | hash value => exact ⟨_, rfl, map_eq_ok.mpr ⟨_, value.ofJson_toJson, rfl⟩⟩
  | blob value => exact ⟨_, rfl, map_eq_ok.mpr ⟨_, value.ofJson_toJson, rfl⟩⟩
  | currency value => exact ⟨_, rfl, map_eq_ok.mpr ⟨_, value.ofJson_toJson, rfl⟩⟩
  | account value => exact ⟨_, rfl, map_eq_ok.mpr ⟨_, value.ofJson_toJson, rfl⟩⟩
  | amount value => exact ⟨_, rfl, map_eq_ok.mpr ⟨_, Amount.ofJson_toJson h, rfl⟩⟩
  | asset value => exact ⟨_, rfl, map_eq_ok.mpr ⟨_, Asset.ofJson_toJson h.nameable, rfl⟩⟩
  | hashes value => exact ⟨_, rfl, map_eq_ok.mpr ⟨_, value.ofJson_toJson, rfl⟩⟩
  | number value => exact ⟨_, rfl, map_eq_ok.mpr ⟨_, Quantity.ofJson_toJson h, rfl⟩⟩
  | paths value => exact ⟨_, rfl, map_eq_ok.mpr ⟨_, PathSet.ofJson_toJson h, rfl⟩⟩
  | bridge value =>
    exact ⟨_, Bridge.toJson_of_canonical h,
      map_eq_ok.mpr ⟨_, Bridge.ofJson_membersJson h, rfl⟩⟩

theorem type_of_ofJson {type : LeafType} {json : Json} {leaf : Leaf}
    (h : ofJson type json = .ok leaf) : leaf.type = type := by
  cases type with
  | unsigned width =>
    obtain ⟨value, built, rfl⟩ := map_eq_ok.mp h
    exact congrArg LeafType.unsigned (Unsigned.width_of_ofJson built)
  | hash width =>
    obtain ⟨value, built, rfl⟩ := map_eq_ok.mp h
    exact congrArg LeafType.hash (Hash.width_of_ofJson built)
  | _ =>
    obtain ⟨value, -, rfl⟩ := map_eq_ok.mp h
    rfl

/-- What JSON builds is settled, but for assets that look like others in their bytes. -/
theorem settled_of_ofJson {type : LeafType} {json : Json} {leaf : Leaf}
    (h : ofJson type json = .ok leaf) (no_asset : type ≠ .asset) (no_bridge : type ≠ .bridge) :
    leaf.Settled := by
  cases type with
  | amount =>
    obtain ⟨value, built, rfl⟩ := map_eq_ok.mp h
    exact Amount.settled_of_ofJson built
  | number =>
    obtain ⟨value, built, rfl⟩ := map_eq_ok.mp h
    exact Quantity.settled_of_ofJson built
  | paths =>
    obtain ⟨value, built, rfl⟩ := map_eq_ok.mp h
    exact PathSet.canonical_of_ofJson built
  | asset => exact absurd rfl no_asset
  | bridge => exact absurd rfl no_bridge
  | _ =>
    obtain ⟨value, -, rfl⟩ := map_eq_ok.mp h
    trivial

theorem settled_of_canonical {leaf : Leaf} (h : leaf.Canonical)
    (asset : leaf.type = .asset ∨ leaf.type = .bridge) : leaf.Settled := by
  cases leaf with
  | asset => exact h
  | bridge => exact h
  | _ => rcases asset with other | other <;> cases other

theorem settled_of_toJson {leaf again : Leaf} {json : Json} (canonical : leaf.Canonical)
    (rendered : leaf.toJson = .ok json) (built : ofJson leaf.type json = .ok again) :
    again.Settled := by
  by_cases asset : leaf.type = .asset ∨ leaf.type = .bridge
  · have settled := settled_of_canonical canonical asset
    obtain ⟨_, rendered_again, same⟩ := ofJson_toJson settled
    rw [rendered] at rendered_again
    cases rendered_again
    rw [built] at same
    cases same
    exact settled
  · exact settled_of_ofJson built (fun same => asset (.inl same)) fun same => asset (.inr same)

theorem canonical_of_read {type : LeafType} {announced : Option Nat} {before after : Cursor}
    {leaf : Leaf} (h : read type announced before = .ok leaf after) :
    leaf.Canonical ∧ leaf.type = type := by
  cases type with
  | unsigned width =>
    obtain ⟨value, value_read, rfl⟩ := Reader.bind_pure_eq_ok.mp h
    obtain ⟨-, middle, -, h⟩ := Reader.bind_eq_ok.mp value_read
    obtain ⟨octets, -, rfl⟩ := Reader.bind_pure_eq_ok.mp h
    exact ⟨trivial, rfl⟩
  | hash width =>
    obtain ⟨value, value_read, rfl⟩ := Reader.bind_pure_eq_ok.mp h
    obtain ⟨-, middle, -, h⟩ := Reader.bind_eq_ok.mp value_read
    obtain ⟨octets, -, rfl⟩ := Reader.bind_pure_eq_ok.mp h
    exact ⟨trivial, rfl⟩
  | amount =>
    obtain ⟨value, value_read, rfl⟩ := Reader.bind_pure_eq_ok.mp h
    exact ⟨Amount.canonical_of_read value_read, rfl⟩
  | asset =>
    obtain ⟨value, value_read, rfl⟩ := Reader.bind_pure_eq_ok.mp h
    exact ⟨Asset.canonical_of_read value_read, rfl⟩
  | paths =>
    obtain ⟨value, value_read, rfl⟩ := Reader.bind_pure_eq_ok.mp h
    exact ⟨PathSet.canonical_of_read value_read, rfl⟩
  | bridge =>
    obtain ⟨value, value_read, rfl⟩ := Reader.bind_pure_eq_ok.mp h
    exact ⟨Bridge.canonical_of_read value_read, rfl⟩
  | _ =>
    obtain ⟨value, -, rfl⟩ := Reader.bind_pure_eq_ok.mp h
    exact ⟨trivial, rfl⟩

end Leaf
end LedgerWire
