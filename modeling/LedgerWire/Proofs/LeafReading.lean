import LedgerWire.Leaf.Basic
import LedgerWire.Proofs.Address
import LedgerWire.Proofs.Lawful

/-!
Leaves are read back from their bytes, whatever follows. The few values that no bytes stand for are
set aside as not canonical; everything that is read is canonical.
-/

namespace LedgerWire

/-- The reader takes these bytes, whatever follows them, for a value. -/
def Reads {α : Type} (reader : Reader α) (bytes : Bytes) (a : α) : Prop :=
  ∀ position rest,
    reader ⟨position, bytes ++ rest⟩ = .ok a ⟨position + bytes.length, rest⟩

namespace Reads
variable {α β : Type} {a : α} {b : β} {front back : Bytes}

theorem pure (a : α) : Reads (Pure.pure a) [] a := fun _ _ => rfl

theorem bind {reader : Reader α} {next : α → Reader β} (h : Reads reader front a)
    (then_reads : Reads (next a) back b) : Reads (reader >>= next) (front ++ back) b := by
  intro position rest
  rw [List.append_assoc, Reader.bind_ok (h position _), then_reads, List.length_append,
    Nat.add_assoc]

theorem map {reader : Reader α} {next : α → Reader β} (h : Reads reader front a)
    (result : next a = Pure.pure b) : Reads (reader >>= next) front b := by
  intro position rest
  rw [Reader.bind_ok (h position rest), result]
  rfl

theorem after {reader : Reader α} {next : α → Reader β}
    (h : ∀ cursor, reader cursor = .ok a cursor) (then_reads : Reads (next a) front b) :
    Reads (reader >>= next) front b := by
  intro position rest
  rw [Reader.bind_ok (h _), then_reads]

theorem look {reader : Reader α} {next : α → Reader β}
    (h : ∀ cursor, ∃ a, reader cursor = .ok a cursor) (then_reads : ∀ a, Reads (next a) front b) :
    Reads (reader >>= next) front b := by
  intro position rest
  obtain ⟨a, seen⟩ := h ⟨position, front ++ rest⟩
  rw [Reader.bind_ok seen, then_reads]

theorem octets {n : Nat} (octets : Octets n) : Reads (Reader.octets n) octets.val octets := by
  obtain ⟨bytes, rfl⟩ := octets
  exact fun position rest => Reader.octets_append position bytes rest

theorem take (bytes : Bytes) : Reads (Reader.take bytes.length) bytes bytes :=
  (octets ⟨bytes, rfl⟩).map rfl

theorem byte (b : UInt8) : Reads Reader.byte [b] b := fun _ _ => rfl

theorem peek {next : UInt8 → Reader β} {first : UInt8} (shape : front = first :: back)
    (then_reads : Reads (next first) front b) : Reads (Reader.peek >>= next) front b := by
  intro position rest
  have seen : Reader.peek ⟨position, front ++ rest⟩ = .ok first ⟨position, front ++ rest⟩ := by
    rw [shape]
    rfl
  rw [Reader.bind_ok seen, then_reads]

end Reads

def Announces (announced : Option Nat) (length : Nat) : Prop :=
  announced = none ∨ announced = some length

theorem checkLength_ok {type : String} {n : Nat} {announced : Option Nat}
    (h : Announces announced n) (cursor : Cursor) :
    checkLength type n announced cursor = .ok () cursor := by
  rcases h with rfl | rfl
  · rfl
  · simp only [checkLength, if_true]
    rfl

namespace Unsigned

theorem read_toBytes (u : Unsigned) {announced : Option Nat}
    (h : Announces announced u.width.bytes) : Reads (read u.width announced) u.toBytes u := by
  refine Reads.after (checkLength_ok h) ?_
  refine (Reads.octets ⟨u.toBytes, length_beBytes _ _⟩).map ?_
  have value : beValue u.toBytes = u.value := by
    rw [toBytes, beValue_beBytes]
    exact Nat.mod_eq_of_lt u.fits
  congr

end Unsigned

theorem Hash.read_toBytes (hash : Hash) {announced : Option Nat}
    (h : Announces announced hash.width.bytes) :
    Reads (read hash.width announced) hash.toBytes hash :=
  Reads.after (checkLength_ok h) ((Reads.octets hash.octets).map rfl)

theorem Currency.read_bytes (currency : Currency) {announced : Option Nat}
    (h : Announces announced 20) : Reads (read announced) currency.bytes currency :=
  Reads.after (checkLength_ok h) ((Reads.octets currency.octets).map rfl)

theorem AccountId.read_bytes (account : AccountId) {announced : Option Nat}
    (h : Announces announced 20) : Reads (read announced) account.bytes account := by
  rw [read, if_neg (by rcases h with rfl | rfl <;> decide)]
  exact Reads.after (checkLength_ok h) ((Reads.octets account.octets).map rfl)

theorem remaining_ok (cursor : Cursor) :
    ∃ n, Reader.remaining cursor = .ok n cursor := ⟨_, rfl⟩

theorem Blob.read_bytes (blob : Blob) : Reads (read (some blob.bytes.length)) blob.bytes blob :=
  Reads.look remaining_ok fun _ => (Reads.take blob.bytes).map rfl

namespace HashList

theorem readHashes_flatMap (hashes : List (Octets 32)) :
    Reads (readHashes hashes.length) (hashes.flatMap (·.val)) hashes := by
  induction hashes with
  | nil => exact Reads.pure []
  | cons hash hashes ih => exact (Reads.octets hash).bind (ih.map rfl)

theorem length_flatMap (hashes : List (Octets 32)) :
    (hashes.flatMap (·.val)).length = 32 * hashes.length := by
  induction hashes with
  | nil => rfl
  | cons hash hashes ih =>
    rw [List.flatMap_cons, List.length_append, ih, hash.property, List.length_cons]
    omega

theorem read_toBytes (list : HashList) :
    Reads (read (some list.toBytes.length)) list.toBytes list := by
  have length : list.toBytes.length = 32 * list.hashes.length := length_flatMap list.hashes
  have whole := readHashes_flatMap list.hashes 0 []
  refine Reads.look remaining_ok fun _ => ?_
  simp only [Option.getD_some]
  rw [if_neg (by omega)]
  refine (Reads.take list.toBytes).map ?_
  have count : list.toBytes.length / 32 = list.hashes.length := by omega
  rw [List.append_nil] at whole
  rw [count, Reader.runOn, Cursor.start, toBytes, whole]
  rfl

end HashList

theorem Quantity.read_toBytes (q : Quantity) {announced : Option Nat}
    (h : Announces announced 12) : Reads (read announced) q.toBytes q := by
  refine Reads.after (checkLength_ok h) ?_
  have length : q.toBytes.length = 12 := by simp [toBytes]
  refine (Reads.octets ⟨q.toBytes, length⟩).map ?_
  have front : q.toBytes.take 8 = beBytes 8 q.mantissa.toUInt64.toNat :=
    List.take_left' (length_beBytes _ _)
  have back : q.toBytes.drop 8 = beBytes 4 q.exponent.toUInt32.toNat :=
    List.drop_left' (length_beBytes _ _)
  have mantissa : q.mantissa.toUInt64.toNat % capacity 8 = q.mantissa.toUInt64.toNat :=
    Nat.mod_eq_of_lt q.mantissa.toUInt64.toNat_lt
  have exponent : q.exponent.toUInt32.toNat % capacity 4 = q.exponent.toUInt32.toNat :=
    Nat.mod_eq_of_lt q.exponent.toUInt32.toNat_lt
  simp only [front, back, beValue_beBytes, mantissa, exponent, UInt64.ofNat_toNat,
    UInt32.ofNat_toNat, Int64.toInt64_toUInt64, Int32.toInt32_toUInt32]

namespace Asset

/-- An asset that its bytes stand for: no issued one looks like the native one or like a token, and
no token like the native one. -/
def Canonical : Asset → Prop
  | .native => True
  | .issued currency issuer => currency.isNative = false ∧ issuer ≠ reserved
  | .token issuer _ => issuer.octets.isZero = false

theorem readAny_toBytes {asset : Asset} (h : asset.Canonical) :
    Reads readAny asset.toBytes asset := by
  cases asset with
  | native =>
    refine (Reads.octets (Octets.zero 20)).map ?_
    rw [if_pos (by decide)]
  | issued currency issuer =>
    refine (Reads.octets currency.octets).bind ?_
    have not_native : ¬ currency.octets.isZero = true := by simpa [Currency.isNative] using h.1
    have unreserved : issuer.octets ≠ reserved.octets := fun same =>
      h.2 (by cases issuer; cases same; rfl)
    rw [if_neg not_native]
    refine (Reads.octets issuer.octets).map ?_
    rw [if_neg unreserved]
  | token issuer sequence =>
    have not_native : ¬ issuer.octets.isZero = true := by simpa [Canonical] using h
    rw [toBytes, List.append_assoc]
    refine (Reads.octets issuer.octets).bind ?_
    rw [if_neg not_native]
    refine (Reads.octets reserved.octets).bind ?_
    rw [if_pos rfl]
    refine (Reads.octets sequence.reverse).map ?_
    rw [Octets.reverse_reverse]

theorem read_toBytes {asset : Asset} (h : asset.Canonical) {announced : Option Nat}
    (fits : Announces announced asset.toBytes.length) :
    Reads (read announced) asset.toBytes asset := by
  rw [← List.append_nil asset.toBytes]
  exact (readAny_toBytes h).bind (Reads.after (checkLength_ok fits) (Reads.pure asset))

end Asset

namespace Bridge

def Canonical (bridge : Bridge) : Prop :=
  bridge.lockingAsset.Canonical ∧ bridge.issuingAsset.Canonical

theorem readDoor_bytes (door : AccountId) : Reads readDoor (doorLength :: door.bytes) door := by
  refine (Reads.byte doorLength).bind ?_
  rw [if_neg (by simp)]
  exact (Reads.octets door.octets).map rfl

theorem read_toBytes {bridge : Bridge} (h : bridge.Canonical) :
    Reads read bridge.toBytes bridge := by
  have shape : bridge.toBytes = (doorLength :: bridge.lockingDoor.bytes) ++
      (bridge.lockingAsset.toBytes ++ ((doorLength :: bridge.issuingDoor.bytes) ++
        bridge.issuingAsset.toBytes)) := by
    simp [toBytes]
  rw [shape]
  refine (readDoor_bytes bridge.lockingDoor).bind ?_
  refine (Asset.readAny_toBytes h.1).bind ?_
  refine (readDoor_bytes bridge.issuingDoor).bind ?_
  exact (Asset.readAny_toBytes h.2).map rfl

end Bridge

namespace PathSet

/-- A set of paths with steps, of steps that have something in them. -/
def Canonical (set : PathSet) : Prop :=
  ∀ path ∈ set.paths, path ≠ [] ∧ ∀ step ∈ path, step.kind ≠ 0

end PathSet

namespace PathStep

theorem readIf_some {α : Type} {wrap : Octets 20 → α} (octets : Octets 20) :
    Reads (readIf true wrap) octets.val (some (wrap octets)) :=
  (Reads.octets octets).map rfl

theorem readIf_none {α : Type} {wrap : Octets 20 → α} : Reads (readIf false wrap) [] none :=
  Reads.pure none

theorem readIf_option {α : Type} (wrap : Octets 20 → α) (bytes : α → Bytes) {part : Option α}
    (h : ∀ a, ∃ octets, wrap octets = a ∧ octets.val = bytes a) {present : Bool}
    (same : present = part.isSome) :
    Reads (readIf present wrap) ((part.map bytes).getD []) part := by
  subst same
  cases part with
  | none => exact readIf_none
  | some a =>
    obtain ⟨octets, rfl, length⟩ := h a
    rw [Option.map_some, Option.getD_some, ← length]
    exact readIf_some octets

theorem kind_bits (step : PathStep) :
    step.kind &&& 0xCE = 0 ∧ (decide (step.kind &&& 0x01 ≠ 0)) = step.account.isSome ∧
      (decide (step.kind &&& 0x10 ≠ 0)) = step.currency.isSome ∧
      (decide (step.kind &&& 0x20 ≠ 0)) = step.issuer.isSome ∧ step.kind ≠ PathSet.separator := by
  have all : ∀ account currency issuer : Bool,
      let kind : UInt8 := (if account then 0x01 else 0) + (if currency then 0x10 else 0) +
        (if issuer then 0x20 else 0)
      kind &&& 0xCE = 0 ∧ (decide (kind &&& 0x01 ≠ 0)) = account ∧
        (decide (kind &&& 0x10 ≠ 0)) = currency ∧ (decide (kind &&& 0x20 ≠ 0)) = issuer ∧
        kind ≠ PathSet.separator := by
    decide
  exact all step.account.isSome step.currency.isSome step.issuer.isSome

theorem read_rest (step : PathStep) :
    Reads (read step.kind) ((step.account.map AccountId.bytes).getD [] ++
      ((step.currency.map Currency.bytes).getD [] ++
        (step.issuer.map AccountId.bytes).getD [])) step := by
  obtain ⟨clean, account, currency, issuer, -⟩ := step.kind_bits
  unfold read
  rw [if_neg (by simp [clean])]
  refine (readIf_option AccountId.mk AccountId.bytes (fun a => ⟨a.octets, rfl, rfl⟩)
    account).bind ?_
  refine (readIf_option Currency.mk Currency.bytes (fun c => ⟨c.octets, rfl, rfl⟩) currency).bind ?_
  exact (readIf_option AccountId.mk AccountId.bytes (fun i => ⟨i.octets, rfl, rfl⟩) issuer).map rfl

end PathStep

namespace PathSet

theorem readPaths_steps {before : List (List PathStep)} (path : List PathStep)
    {steps : List PathStep} {back : Bytes} {result : List (List PathStep)} {rounds : Nat}
    (nonempty : ∀ step ∈ steps, step.kind ≠ 0)
    (h : Reads (readPaths rounds before (path ++ steps)) back result) :
    Reads (readPaths (steps.length + rounds) before path)
      (steps.flatMap PathStep.toBytes ++ back) result := by
  induction steps generalizing path with
  | nil =>
    rw [List.append_nil] at h
    rwa [List.length_nil, Nat.zero_add]
  | cons step steps ih =>
    obtain ⟨-, -, -, -, no_separator⟩ := step.kind_bits
    have rest := ih (path ++ [step])
      (fun other member => nonempty other (List.mem_cons_of_mem _ member))
      (by rwa [List.append_assoc])
    have whole : (step :: steps).flatMap PathStep.toBytes ++ back = [step.kind] ++
        (((step.account.map AccountId.bytes).getD [] ++
          ((step.currency.map Currency.bytes).getD [] ++
            (step.issuer.map AccountId.bytes).getD [])) ++
          (steps.flatMap PathStep.toBytes ++ back)) := by
      simp [PathStep.toBytes]
    rw [List.length_cons, Nat.add_right_comm, whole]
    refine (Reads.byte step.kind).bind ?_
    have no_terminator : step.kind ≠ terminator := nonempty step List.mem_cons_self
    rw [if_neg no_terminator, if_neg no_separator]
    exact step.read_rest.bind rest

def roundsFor (paths : List (List PathStep)) : Nat :=
  (paths.map fun path => path.length + 1).sum

theorem toBytes_single (path : List PathStep) :
    toBytes ⟨[path]⟩ = path.flatMap PathStep.toBytes ++ [terminator] := by
  simp [toBytes, List.intercalate]

theorem toBytes_cons (path next : List PathStep) (paths : List (List PathStep)) :
    toBytes ⟨path :: next :: paths⟩ =
      path.flatMap PathStep.toBytes ++ ([separator] ++ toBytes ⟨next :: paths⟩) := by
  simp [toBytes, List.intercalate]

theorem readPaths_paths (before : List (List PathStep)) (path : List PathStep)
    {paths : List (List PathStep)} (canonical : Canonical ⟨path :: paths⟩) (more : Nat) :
    Reads (readPaths (roundsFor (path :: paths) + more) before []) (toBytes ⟨path :: paths⟩)
      (before ++ path :: paths) := by
  induction paths generalizing before path with
  | nil =>
    obtain ⟨nonempty, steps⟩ := canonical path List.mem_cons_self
    have count : roundsFor [path] + more = path.length + (more + 1) := by
      simp [roundsFor]
      omega
    rw [toBytes_single, count]
    refine readPaths_steps [] steps ((Reads.byte terminator).map ?_)
    simp [nonempty]
  | cons next paths ih =>
    obtain ⟨nonempty, steps⟩ := canonical path List.mem_cons_self
    have rest := ih (before ++ [path]) next
      fun other member => canonical other (List.mem_cons_of_mem _ member)
    have count : roundsFor (path :: next :: paths) + more =
        path.length + (roundsFor (next :: paths) + more + 1) := by
      simp [roundsFor]
      omega
    rw [toBytes_cons, count]
    refine readPaths_steps [] steps ((Reads.byte separator).bind ?_)
    rw [if_neg (by decide), if_pos rfl, if_neg (by simpa using nonempty)]
    rwa [List.append_assoc] at rest

theorem length_le_flatMap (path : List PathStep) :
    path.length ≤ (path.flatMap PathStep.toBytes).length := by
  induction path with
  | nil => exact Nat.le_refl 0
  | cons step path ih =>
    rw [List.flatMap_cons, List.length_append, PathStep.toBytes, List.length_cons, List.length_cons]
    omega

theorem roundsFor_le (path : List PathStep) (paths : List (List PathStep)) :
    roundsFor (path :: paths) ≤ (toBytes ⟨path :: paths⟩).length := by
  induction paths generalizing path with
  | nil =>
    have steps := length_le_flatMap path
    have count : roundsFor [path] = path.length + 1 := by simp [roundsFor]
    rw [count, toBytes_single, List.length_append, List.length_singleton]
    omega
  | cons next paths ih =>
    have steps := length_le_flatMap path
    have rest := ih next
    have count : roundsFor (path :: next :: paths) =
        path.length + 1 + roundsFor (next :: paths) := by
      simp [roundsFor]
    rw [count, toBytes_cons, List.length_append, List.length_append, List.length_singleton]
    omega

theorem read_toBytes {set : PathSet} (h : set.Canonical) : Reads read set.toBytes set := by
  obtain ⟨paths⟩ := set
  cases paths with
  | nil => exact fun _ _ => rfl
  | cons path paths =>
    intro position rest
    have enough := roundsFor_le path paths
    have whole := readPaths_paths [] path h
      ((toBytes ⟨path :: paths⟩ ++ rest).length - roundsFor (path :: paths)) position rest
    rw [Nat.add_sub_cancel' (by rw [List.length_append]; omega)] at whole
    have counted : Reader.remaining ⟨position, toBytes ⟨path :: paths⟩ ++ rest⟩ =
        .ok (toBytes ⟨path :: paths⟩ ++ rest).length ⟨position, toBytes ⟨path :: paths⟩ ++ rest⟩ :=
      rfl
    rw [read, Reader.bind_ok counted, Reader.bind_ok whole]
    rfl

end PathSet

theorem beBytes_succ (width n : Nat) :
    beBytes (width + 1) n = UInt8.ofNat (n / capacity width) :: beBytes width n := by
  induction width generalizing n with
  | zero => simp [beBytes, capacity]
  | succ width ih =>
    rw [beBytes, ih, beBytes, capacity, Nat.div_div_eq_div_mul, Nat.mul_comm 256]
    rfl

namespace Amount

def Canonical : Amount → Prop
  | .native _ _ => True
  | .issued _ _ mantissa _ _ => isNormal mantissa.toNat = true

theorem word_native (positive : Bool) (drops : BitVec 62) :
    (native positive drops).word < 9223372036854775808 ∧
      nativeOfWord (native positive drops).word = native positive drops := by
  have bound : drops.toNat < 4611686018427387904 := drops.isLt
  have same : BitVec.ofNat 62 (native positive drops).word = drops := by
    apply BitVec.eq_of_toNat_eq
    rw [BitVec.toNat_ofNat]
    cases positive <;>
      simp only [word, signBit, positiveBit, Bool.false_eq_true, if_true, if_false] <;>
      omega
  have sign : ((native positive drops).word / positiveBit % 2 == 1) = positive := by
    cases positive <;> simp [word, signBit, positiveBit] <;> omega
  refine ⟨?_, by rw [nativeOfWord, same, sign]⟩
  cases positive <;> simp [word, signBit, positiveBit] <;> omega

theorem word_issued (positive : Bool) (biased : UInt8) (mantissa : BitVec 54) (currency : Currency)
    (issuer : AccountId) :
    9223372036854775808 ≤ (issued positive biased mantissa currency issuer).word ∧
      (issued positive biased mantissa currency issuer).word < 18446744073709551616 ∧
      (issued positive biased mantissa currency issuer).word % exponentUnit = mantissa.toNat ∧
      issuedOfWord (issued positive biased mantissa currency issuer).word currency issuer =
        issued positive biased mantissa currency issuer := by
  have mantissa_bound : mantissa.toNat < 18014398509481984 := mantissa.isLt
  have biased_bound := biased.toNat_lt
  generalize whole : (issued positive biased mantissa currency issuer).word = word
  have parts : word = 9223372036854775808 + (if positive then 4611686018427387904 else 0) +
      biased.toNat * 18014398509481984 + mantissa.toNat := by
    rw [← whole]
    rfl
  have sign : (word / positiveBit % 2 == 1) = positive := by
    cases positive <;> simp [positiveBit] at parts ⊢ <;> omega
  have exponent : UInt8.ofNat (word / exponentUnit) = biased := by
    apply UInt8.toNat_inj.mp
    rw [UInt8.toNat_ofNat']
    cases positive <;> simp [exponentUnit] at parts ⊢ <;> omega
  have digits : BitVec.ofNat 54 word = mantissa := by
    apply BitVec.eq_of_toNat_eq
    rw [BitVec.toNat_ofNat]
    cases positive <;> simp at parts <;> omega
  refine ⟨?_, ?_, ?_, ?_⟩
  · omega
  · cases positive <;> simp at parts <;> omega
  · cases positive <;> simp [exponentUnit] at parts ⊢ <;> omega
  · rw [issuedOfWord, sign, exponent, digits]

theorem readIssued_toBytes {positive : Bool} {biased : UInt8} {mantissa : BitVec 54}
    {currency : Currency} {issuer : AccountId} (h : isNormal mantissa.toNat = true) :
    Reads readIssued (issued positive biased mantissa currency issuer).toBytes
      (issued positive biased mantissa currency issuer) := by
  obtain ⟨-, bound, low, same⟩ := word_issued positive biased mantissa currency issuer
  generalize whole : issued positive biased mantissa currency issuer = amount at *
  have shape : amount.toBytes = beBytes 8 amount.word ++ (currency.bytes ++ issuer.bytes) := by
    rw [← whole, toBytes, List.append_assoc]
  have length : amount.toBytes.length = 48 := by
    simp [shape]
  refine (Reads.octets ⟨amount.toBytes, length⟩).map ?_
  have first : amount.toBytes.take 8 = beBytes 8 amount.word := by
    rw [shape, List.take_left' (length_beBytes _ _)]
  have rest : amount.toBytes.drop 8 = currency.bytes ++ issuer.bytes := by
    rw [shape, List.drop_left' (length_beBytes _ _)]
  have second : (amount.toBytes.drop 8).take 20 = currency.bytes := by
    rw [rest, List.take_left' currency.length_bytes]
  have third : amount.toBytes.drop 28 = issuer.bytes := by
    rw [show 28 = 8 + 20 from rfl, ← List.drop_drop, rest, List.drop_left' currency.length_bytes]
  have word : beValue (beBytes 8 amount.word) = amount.word := by
    rw [beValue_beBytes]
    exact Nat.mod_eq_of_lt bound
  simp only [first, second, third, word, low, h, if_true]
  exact congrArg pure same

theorem first_byte {word : Nat} (bound : word < 18446744073709551616) :
    ∃ first back, beBytes 8 word = first :: back ∧
      (first < 128 ↔ word < 9223372036854775808) := by
  refine ⟨_, _, beBytes_succ 7 word, ?_⟩
  rw [UInt8.lt_iff_toNat_lt, UInt8.toNat_ofNat']
  simp only [capacity, UInt8.reduceToNat]
  omega

theorem read_toBytes {amount : Amount} (h : amount.Canonical) {announced : Option Nat}
    (fits : Announces announced amount.toBytes.length) :
    Reads (read announced) amount.toBytes amount := by
  cases amount with
  | native positive drops =>
    obtain ⟨bound, same⟩ := word_native positive drops
    have shape : (native positive drops).toBytes = beBytes 8 (native positive drops).word := rfl
    generalize native positive drops = amount at *
    have whole : amount.word < 18446744073709551616 := by omega
    obtain ⟨first, back, bytes, low⟩ := first_byte whole
    have word : beValue (beBytes 8 amount.word) = amount.word := by
      rw [beValue_beBytes]
      exact Nat.mod_eq_of_lt whole
    rw [shape, length_beBytes] at fits
    rw [shape]
    refine Reads.peek bytes ?_
    rw [if_pos (low.mpr bound)]
    refine Reads.after (checkLength_ok fits) ?_
    refine Reads.map ((Reads.octets ⟨beBytes 8 amount.word, length_beBytes _ _⟩).map rfl) ?_
    rw [word, same]
  | issued positive biased mantissa currency issuer =>
    obtain ⟨lower, bound, -⟩ := word_issued positive biased mantissa currency issuer
    have length : (issued positive biased mantissa currency issuer).toBytes.length = 48 := by
      simp [toBytes]
    obtain ⟨first, back, bytes, low⟩ := first_byte bound
    have shape : (issued positive biased mantissa currency issuer).toBytes =
        first :: (back ++ currency.bytes ++ issuer.bytes) := by
      rw [toBytes, bytes]
      rfl
    rw [length] at fits
    refine Reads.peek shape ?_
    rw [if_neg (by rw [low]; omega)]
    exact Reads.after (checkLength_ok fits) (readIssued_toBytes h)

end Amount

namespace Leaf

def type : Leaf → LeafType
  | .unsigned value => .unsigned value.width
  | .hash value => .hash value.width
  | .blob _ => .blob
  | .currency _ => .currency
  | .account _ => .account
  | .amount _ => .amount
  | .asset _ => .asset
  | .hashes _ => .hashes
  | .number _ => .number
  | .paths _ => .paths
  | .bridge _ => .bridge

/-- A leaf that its bytes stand for. -/
def Canonical : Leaf → Prop
  | .amount value => value.Canonical
  | .asset value => value.Canonical
  | .paths value => value.Canonical
  | .bridge value => value.Canonical
  | _ => True

def Prefixed (leaf : Leaf) (announced : Option Nat) : Prop :=
  announced = some leaf.toBytes.length ∨
    announced = none ∧ (WireType.leaf leaf.type).prefixed = false

theorem read_toBytes {leaf : Leaf} (h : leaf.Canonical) {announced : Option Nat}
    (fits : leaf.Prefixed announced) : Reads (read leaf.type announced) leaf.toBytes leaf := by
  have announces : Announces announced leaf.toBytes.length :=
    fits.symm.imp (fun none => none.1) id
  cases leaf with
  | unsigned value =>
    rw [toBytes, Unsigned.toBytes, length_beBytes] at announces
    exact (value.read_toBytes announces).map rfl
  | hash value =>
    rw [toBytes, Hash.toBytes, value.octets.property] at announces
    exact (value.read_toBytes announces).map rfl
  | blob value =>
    obtain rfl := fits.resolve_right (by simp [type, WireType.prefixed])
    exact value.read_bytes.map rfl
  | currency value =>
    rw [toBytes, value.length_bytes] at announces
    exact (value.read_bytes announces).map rfl
  | account value =>
    rw [toBytes, value.length_bytes] at announces
    exact (value.read_bytes announces).map rfl
  | amount value => exact (Amount.read_toBytes h announces).map rfl
  | asset value => exact (Asset.read_toBytes h announces).map rfl
  | hashes value =>
    obtain rfl := fits.resolve_right (by simp [type, WireType.prefixed])
    exact value.read_toBytes.map rfl
  | number value =>
    have length : value.toBytes.length = 12 := by simp [Quantity.toBytes]
    rw [toBytes, length] at announces
    exact (value.read_toBytes announces).map rfl
  | paths value => exact (PathSet.read_toBytes h).map rfl
  | bridge value => exact (Bridge.read_toBytes h).map rfl

end Leaf
end LedgerWire
