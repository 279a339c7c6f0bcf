import LedgerWire.Proofs.Delimited

namespace LedgerWire

inductive SpellsPart {α : Type} (wrap : Octets 20 → α) : Bool → Bytes → Option α → Prop
  | absent : SpellsPart wrap false [] none
  | present (octets : Octets 20) : SpellsPart wrap true octets.val (some (wrap octets))

/-- A step: a byte that is not zero, with no bits but three, and behind it what they announce. -/
inductive SpellsStep : Bytes → PathStep → Prop
  | step {kind : UInt8} {first second third : Bytes} {account issuer : Option AccountId}
      {currency : Option Currency} :
      kind ≠ 0x00 → kind ||| (0x01 ||| 0x10 ||| 0x20) = 0x01 ||| 0x10 ||| 0x20 →
      SpellsPart AccountId.mk (kind &&& 0x01 ≠ 0) first account →
      SpellsPart Currency.mk (kind &&& 0x10 ≠ 0) second currency →
      SpellsPart AccountId.mk (kind &&& 0x20 ≠ 0) third issuer →
      SpellsStep (kind :: (first ++ second ++ third)) ⟨account, currency, issuer⟩

inductive SpellsPath : Bytes → List PathStep → Prop
  | last {bytes : Bytes} {step : PathStep} : SpellsStep bytes step → SpellsPath bytes [step]
  | more {bytes rest : Bytes} {step : PathStep} {path : List PathStep} :
      SpellsStep bytes step → SpellsPath rest path → SpellsPath (bytes ++ rest) (step :: path)

/-- One or more paths, with `FF` between them and `00` at the end. -/
inductive SpellsPaths : Bytes → List (List PathStep) → Prop
  | last {bytes : Bytes} {path : List PathStep} :
      SpellsPath bytes path → SpellsPaths (bytes ++ [0x00]) [path]
  | more {bytes rest : Bytes} {path : List PathStep} {paths : List (List PathStep)} :
      SpellsPath bytes path → SpellsPaths rest paths →
      SpellsPaths (bytes ++ [0xFF] ++ rest) (path :: paths)

inductive SpellsSet : Bytes → PathSet → Prop
  | none : SpellsSet [0x00] ⟨[]⟩
  | paths {bytes : Bytes} {paths : List (List PathStep)} :
      SpellsPaths bytes paths → SpellsSet bytes ⟨paths⟩

theorem spellsPart_iff {α : Type} {wrap : Octets 20 → α} (toBytes : α → Bytes)
    (spelled : ∀ octets, toBytes (wrap octets) = octets.val)
    (wrapped : ∀ a, ∃ octets, wrap octets = a) {present : Bool} {bytes : Bytes} {part : Option α} :
    SpellsPart wrap present bytes part ↔
      part.isSome = present ∧ bytes = (part.map toBytes).getD [] := by
  constructor
  · intro spells
    cases spells with
    | absent => exact ⟨rfl, rfl⟩
    | present octets => exact ⟨rfl, (spelled octets).symm⟩
  · rintro ⟨rfl, rfl⟩
    cases part with
    | none => exact .absent
    | some a =>
      obtain ⟨octets, rfl⟩ := wrapped a
      rw [Option.map_some, Option.getD_some, spelled]
      exact .present octets

theorem spellsAccount_iff {present : Bool} {bytes : Bytes} {part : Option AccountId} :
    SpellsPart AccountId.mk present bytes part ↔
      part.isSome = present ∧ bytes = (part.map AccountId.bytes).getD [] :=
  spellsPart_iff AccountId.bytes (fun _ => rfl) fun account => ⟨account.octets, rfl⟩

theorem spellsCurrency_iff {present : Bool} {bytes : Bytes} {part : Option Currency} :
    SpellsPart Currency.mk present bytes part ↔
      part.isSome = present ∧ bytes = (part.map Currency.bytes).getD [] :=
  spellsPart_iff Currency.bytes (fun _ => rfl) fun currency => ⟨currency.octets, rfl⟩

theorem announcing_iff : ∀ kind : UInt8,
    kind ||| (0x01 ||| 0x10 ||| 0x20) = 0x01 ||| 0x10 ||| 0x20 ↔ kind &&& 0xCE = 0 :=
  forall_byte (by decide +kernel)

theorem spellsStep_iff {bytes : Bytes} {step : PathStep} :
    SpellsStep bytes step ↔ step.kind ≠ 0 ∧ bytes = step.toBytes := by
  constructor
  · rintro ⟨filled, clean, first, second, third⟩
    obtain ⟨has_account, rfl⟩ := spellsAccount_iff.mp first
    obtain ⟨has_currency, rfl⟩ := spellsCurrency_iff.mp second
    obtain ⟨has_issuer, rfl⟩ := spellsAccount_iff.mp third
    have same := PathStep.kind_of_bits _ ((announcing_iff _).mp clean)
    rw [← has_account, ← has_currency, ← has_issuer] at same
    exact ⟨fun zero => filled (same.symm.trans zero), by rw [PathStep.toBytes, PathStep.kind, same]⟩
  · rintro ⟨filled, rfl⟩
    obtain ⟨clean, has_account, has_currency, has_issuer, -⟩ := step.kind_bits
    exact .step filled ((announcing_iff _).mpr clean)
      (spellsAccount_iff.mpr ⟨has_account.symm, rfl⟩)
      (spellsCurrency_iff.mpr ⟨has_currency.symm, rfl⟩)
      (spellsAccount_iff.mpr ⟨has_issuer.symm, rfl⟩)

theorem spellsPath_iff {bytes : Bytes} {path : List PathStep} :
    SpellsPath bytes path ↔ path ≠ [] ∧ (∀ step ∈ path, step.kind ≠ 0) ∧
      bytes = path.flatMap PathStep.toBytes := by
  constructor
  · intro spells
    induction spells with
    | last step =>
      obtain ⟨filled, rfl⟩ := spellsStep_iff.mp step
      exact ⟨by simp, by simpa using filled, by simp⟩
    | more step _ ih =>
      obtain ⟨filled, rfl⟩ := spellsStep_iff.mp step
      obtain ⟨-, rest_filled, rfl⟩ := ih
      exact ⟨by simp, List.forall_mem_cons.mpr ⟨filled, rest_filled⟩, rfl⟩
  · rintro ⟨nonempty, filled, rfl⟩
    induction path with
    | nil => exact absurd rfl nonempty
    | cons step path ih =>
      obtain ⟨step_filled, rest_filled⟩ := List.forall_mem_cons.mp filled
      have spells := spellsStep_iff.mpr ⟨step_filled, rfl⟩
      by_cases alone : path = []
      · subst alone
        rw [List.flatMap_singleton]
        exact .last spells
      · exact .more spells (ih alone rest_filled)

theorem spellsPaths_iff {bytes : Bytes} {paths : List (List PathStep)} :
    SpellsPaths bytes paths ↔
      paths ≠ [] ∧ PathSet.Canonical ⟨paths⟩ ∧ bytes = PathSet.toBytes ⟨paths⟩ := by
  constructor
  · intro spells
    induction spells with
    | last path =>
      obtain ⟨nonempty, filled, rfl⟩ := spellsPath_iff.mp path
      refine ⟨by simp, fun other member => ?_, (PathSet.toBytes_single _).symm⟩
      rw [List.mem_singleton.mp member]
      exact ⟨nonempty, filled⟩
    | more path _ ih =>
      obtain ⟨nonempty, filled, rfl⟩ := spellsPath_iff.mp path
      obtain ⟨more, canonical, rfl⟩ := ih
      obtain ⟨next, others, rfl⟩ := List.exists_cons_of_ne_nil more
      refine ⟨by simp, List.forall_mem_cons.mpr ⟨⟨nonempty, filled⟩, canonical⟩, ?_⟩
      rw [PathSet.toBytes_cons, List.append_assoc]
      rfl
  · rintro ⟨nonempty, canonical, rfl⟩
    induction paths with
    | nil => exact absurd rfl nonempty
    | cons path paths ih =>
      obtain ⟨⟨path_nonempty, filled⟩, rest_canonical⟩ := List.forall_mem_cons.mp canonical
      have spells := spellsPath_iff.mpr ⟨path_nonempty, filled, rfl⟩
      cases paths with
      | nil =>
        rw [PathSet.toBytes_single]
        exact .last spells
      | cons next others =>
        rw [PathSet.toBytes_cons, ← List.append_assoc]
        exact .more spells (ih (by simp) rest_canonical)

theorem spellsSet_iff {bytes : Bytes} {set : PathSet} :
    SpellsSet bytes set ↔ set.Canonical ∧ bytes = set.toBytes := by
  constructor
  · intro spells
    cases spells with
    | none => exact ⟨nofun, rfl⟩
    | paths spells => exact (spellsPaths_iff.mp spells).2
  · rintro ⟨canonical, rfl⟩
    obtain ⟨paths⟩ := set
    by_cases empty : paths = []
    · subst empty
      exact .none
    · exact .paths (spellsPaths_iff.mpr ⟨empty, canonical, rfl⟩)

/-- No spelling of a set goes on where another one ends, and none is of two sets. -/
theorem SpellsSet.unique {bytes rest : Bytes} {set other : PathSet} (spells : SpellsSet bytes set)
    (longer : SpellsSet (bytes ++ rest) other) : rest = [] ∧ set = other := by
  obtain ⟨canonical, rfl⟩ := spellsSet_iff.mp spells
  obtain ⟨other_canonical, whole⟩ := spellsSet_iff.mp longer
  have read := PathSet.read_toBytes canonical 0 rest
  have other_read := PathSet.read_toBytes other_canonical 0 []
  rw [List.append_nil, ← whole, read] at other_read
  simp only [EStateM.Result.ok.injEq, Cursor.mk.injEq] at other_read
  exact ⟨other_read.2.2, other_read.1⟩

namespace PathSet

theorem read_eq_ok_iff {before after : Cursor} {set : PathSet} :
    read before = .ok set after ↔ ∃ bytes, SpellsSet bytes set ∧ Passes before bytes after := by
  constructor
  · intro h
    exact ⟨set.toBytes, spellsSet_iff.mpr ⟨canonical_of_read h, rfl⟩, passes_read h⟩
  · rintro ⟨bytes, spells, passed⟩
    obtain ⟨canonical, rfl⟩ := spellsSet_iff.mp spells
    exact passed.reads (read_toBytes canonical)

inductive Progress
  | done (paths : List (List PathStep))
  | going (before : List (List PathStep)) (path : List PathStep)

def round (before : List (List PathStep)) (path : List PathStep) : Reader Progress := do
  let kind ← Reader.byte
  if kind = terminator then
    if path.isEmpty && !before.isEmpty then throw (.malformed typeName .emptyPath)
    else return .done (if path.isEmpty then before else before ++ [path])
  else if kind = separator then
    if path.isEmpty then throw (.malformed typeName .emptyPath)
    else return .going (before ++ [path]) []
  else
    return .going before (path ++ [← PathStep.read kind])

/-- What the loop ends with, if nothing counts its rounds. -/
inductive Loops : List (List PathStep) → List PathStep → Cursor →
    EStateM.Result Error Cursor (List (List PathStep)) → Prop
  | fails {before path cursor e after} :
      round before path cursor = .error e after → Loops before path cursor (.error e after)
  | ends {before path cursor paths after} :
      round before path cursor = .ok (.done paths) after →
      Loops before path cursor (.ok paths after)
  | goes {before path cursor before' path' middle outcome} :
      round before path cursor = .ok (.going before' path') middle →
      Loops before' path' middle outcome → Loops before path cursor outcome

section Loop
variable {before before' : List (List PathStep)} {path path' : List PathStep}
  {cursor middle : Cursor}

theorem readPaths_succ (rounds : Nat) :
    readPaths (rounds + 1) before path = round before path >>= fun
      | .done paths => pure paths
      | .going before path => readPaths rounds before path := by
  rw [readPaths, round, bind_assoc]
  congr 1
  funext kind
  by_cases ends : kind = terminator
  · rw [if_pos ends, if_pos ends]
    by_cases refused : (path.isEmpty && !before.isEmpty) = true
    · rw [if_pos refused, if_pos refused]
      rfl
    · rw [if_neg refused, if_neg refused, pure_bind]
  rw [if_neg ends, if_neg ends]
  by_cases separates : kind = separator
  · rw [if_pos separates, if_pos separates]
    by_cases refused : path.isEmpty = true
    · rw [if_pos refused, if_pos refused]
      rfl
    · rw [if_neg refused, if_neg refused, pure_bind]
  · rw [if_neg separates, if_neg separates, bind_assoc]
    rfl

theorem remaining_lt_of_round (h : round before path cursor = .ok (.going before' path') middle) :
    middle.remaining < cursor.remaining := by
  obtain ⟨kind, behind, kind_read, h⟩ := Reader.bind_eq_ok.mp h
  have taken := (passes_byte kind_read).length_lt (by simp)
  split at h
  · split at h <;> cases h
  split at h
  · split at h
    · cases h
    · cases h
      exact taken
  · obtain ⟨step, last, step_read, h⟩ := Reader.bind_eq_ok.mp h
    obtain ⟨bytes, passed, -⟩ := PathStep.passes_read step_read
    cases h
    exact passed.length_le.trans_lt taken

theorem loops_readPaths {rounds : Nat} (enough : cursor.remaining ≤ rounds) :
    Loops before path cursor (readPaths rounds before path cursor) := by
  induction rounds generalizing before path cursor with
  | zero =>
    -- Without rounds there are no bytes either, and the next round would ask for one.
    obtain ⟨position, rest⟩ := cursor
    obtain rfl : rest = [] := List.length_eq_zero_iff.mp (Nat.le_zero.mp enough)
    exact .fails rfl
  | succ rounds ih =>
    rw [readPaths_succ]
    cases taken : round before path cursor with
    | error e after =>
      simp only [bind, EStateM.bind, taken]
      exact .fails taken
    | ok progress after =>
      rw [Reader.bind_ok taken]
      cases progress with
      | done paths => exact .ends taken
      | going before' path' =>
        have fewer := remaining_lt_of_round taken
        exact .goes taken (ih (by omega))

theorem Loops.unique {outcome other : EStateM.Result Error Cursor (List (List PathStep))}
    (loops : Loops before path cursor outcome) (also : Loops before path cursor other) :
    outcome = other := by
  induction loops with
  | fails failed =>
    cases also with
    | fails same =>
      rw [failed] at same
      cases same
      rfl
    | ends same | goes same =>
      rw [failed] at same
      cases same
  | ends ended =>
    cases also with
    | ends same =>
      rw [ended] at same
      cases same
      rfl
    | fails same | goes same =>
      rw [ended] at same
      cases same
  | goes gone _ ih =>
    cases also with
    | goes same rest =>
      rw [gone] at same
      cases same
      exact ih rest
    | fails same | ends same =>
      rw [gone] at same
      cases same

/-- With a round for every byte, counting the rounds changes nothing. -/
theorem loops_iff_readPaths {rounds : Nat} (enough : cursor.remaining ≤ rounds)
    {outcome : EStateM.Result Error Cursor (List (List PathStep))} :
    Loops before path cursor outcome ↔ readPaths rounds before path cursor = outcome :=
  ⟨(loops_readPaths enough).unique, fun same => same ▸ loops_readPaths enough⟩

end Loop

theorem read_eq (cursor : Cursor) :
    read cursor = match readPaths cursor.remaining [] [] cursor with
      | .ok paths after => .ok ⟨paths⟩ after
      | .error e after => .error e after := by
  have counted : Reader.remaining cursor = .ok cursor.remaining cursor := rfl
  rw [read, Reader.bind_ok counted]
  simp only [bind, EStateM.bind]
  cases readPaths cursor.remaining [] [] cursor <;> rfl

theorem read_eq_ok_iff_loops {before after : Cursor} {set : PathSet} :
    read before = .ok set after ↔ Loops [] [] before (.ok set.paths after) := by
  rw [loops_iff_readPaths le_rfl, read_eq]
  cases readPaths before.remaining [] [] before with
  | ok paths after' =>
    simp only [EStateM.Result.ok.injEq]
    exact and_congr_left fun _ => ⟨fun same => by rw [← same], fun same => by rw [same]⟩
  | error e after' => exact ⟨nofun, nofun⟩

theorem read_eq_error_iff_loops {before after : Cursor} {e : Error} :
    read before = .error e after ↔ Loops [] [] before (.error e after) := by
  rw [loops_iff_readPaths le_rfl, read_eq]
  cases readPaths before.remaining [] [] before with
  | ok paths after' => exact ⟨nofun, nofun⟩
  | error e' after' => simp

/-- Reading a path set is parsing by the grammar: a set is read with the bytes that spell it and no
others, wherever they stand and whatever follows; no other spelling stops earlier or goes on; a set
made from JSON is read back from its bytes; and the loop ends in one way on every buffer. -/
theorem read_parses_grammar :
    (∀ before set after, read before = .ok set after ↔
      ∃ bytes, SpellsSet bytes set ∧ Passes before bytes after) ∧
    (∀ bytes set, SpellsSet bytes set → set.toBytes = bytes) ∧
    (∀ bytes rest set other, SpellsSet bytes set → SpellsSet (bytes ++ rest) other →
      rest = [] ∧ set = other) ∧
    (∀ json set, ofJson json = .ok set → SpellsSet set.toBytes set ∧ Reads read set.toBytes set) ∧
    (∀ cursor, ∃! outcome, Loops [] [] cursor outcome) ∧
    (∀ before set after,
      read before = .ok set after ↔ Loops [] [] before (.ok set.paths after)) ∧
    ∀ before e after, read before = .error e after ↔ Loops [] [] before (.error e after) := by
  refine ⟨fun _ _ _ => read_eq_ok_iff, fun bytes set spells => (spellsSet_iff.mp spells).2.symm,
    fun _ _ _ _ => SpellsSet.unique, fun json set made => ?_, fun cursor => ?_,
    fun _ _ _ => read_eq_ok_iff_loops, fun _ _ _ => read_eq_error_iff_loops⟩
  · have canonical := canonical_of_ofJson made
    exact ⟨spellsSet_iff.mpr ⟨canonical, rfl⟩, read_toBytes canonical⟩
  · exact ⟨_, loops_readPaths le_rfl, fun other loops => loops.unique (loops_readPaths le_rfl)⟩

def markedPaths : PathSet :=
  ⟨[[⟨some ⟨List.replicate 20 0xFF, rfl⟩, none, none⟩, ⟨none, some ⟨Octets.zero 20⟩, none⟩],
    [⟨some AccountId.zero, none, some ⟨List.replicate 20 0xFF, rfl⟩⟩]]⟩

theorem read_parses_grammar_markedPaths :
    SpellsSet markedPaths.toBytes markedPaths ∧
      read ⟨7, markedPaths.toBytes ++ [0xFF, 0x00]⟩ = .ok markedPaths ⟨92, [0xFF, 0x00]⟩ ∧
      Loops [] [] ⟨7, markedPaths.toBytes ++ [0xFF, 0x00]⟩
        (.ok markedPaths.paths ⟨92, [0xFF, 0x00]⟩) := by
  have spells : SpellsSet markedPaths.toBytes markedPaths := by
    refine spellsSet_iff.mpr ⟨?_, rfl⟩
    unfold Canonical
    decide
  obtain ⟨reads, -, -, -, -, loops, -⟩ := read_parses_grammar
  have taken := (reads ⟨7, markedPaths.toBytes ++ [0xFF, 0x00]⟩ markedPaths
    ⟨92, [0xFF, 0x00]⟩).mpr ⟨_, spells, rfl, by decide⟩
  exact ⟨spells, taken, (loops _ _ _).mp taken⟩

end PathSet
end LedgerWire
