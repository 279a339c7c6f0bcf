import LedgerWire.Proofs.Walks

/-!
Lengths in front of values. Most types compare the length with what they read, and lists and opaque
bytes take as much as it says: where they are read, the length is honoured. Path sets, bridges and
containers find their own end and pass over the length, right or wrong.
-/

namespace LedgerWire

inductive LengthUse
  | compares
  | takes
  | overlooks
deriving DecidableEq, Repr

def LeafType.lengthUse : LeafType → LengthUse
  | .blob | .hashes => .takes
  | .paths | .bridge => .overlooks
  | _ => .compares

def WireType.lengthUse : WireType → LengthUse
  | .leaf type => type.lengthUse
  | .object | .array => .overlooks

theorem WireType.not_overlooks_of_prefixed (type : WireType) (h : type.prefixed = true) :
    type.lengthUse ≠ .overlooks := by
  intro use
  cases type with
  | leaf type =>
    cases type with
    | blob | account | hashes => cases use
    | _ => cases h
  | object | array => cases h

/-- Where the reader succeeds behind a length, it has taken as many bytes as the length says. -/
def HonoursLength {α : Type} (reader : Reader α) : Prop :=
  ∀ before middle after n a, LengthPrefix.read before = .ok n middle →
    reader before = .ok a after → ∃ bytes, Passes middle bytes after ∧ bytes.length = n

/-- A value is read behind a length as it is read alone, if the length is its own; a length that is
not is refused. -/
structure Compared {α : Type} (type : String) (bytes : α → Bytes) (n : Nat) (before : Cursor)
    (alone announced : EStateM.Result Error Cursor α) : Prop where
  passes : ∀ a after, alone = .ok a after → Passes before (bytes a) after
  agrees : ∀ a after, announced = .ok a after ↔ alone = .ok a after ∧ (bytes a).length = n
  differs : ∀ a after, alone = .ok a after → (bytes a).length ≠ n →
    ∃ last, announced = .error (.wrongLength type (bytes a).length n) last

namespace Compared
variable {α : Type} {type : String} {bytes : α → Bytes} {n width : Nat} {before here : Cursor}

theorem of_checkLength {body : Reader α}
    (reads : ∀ a after, body here = .ok a after →
      Passes before (bytes a) after ∧ (bytes a).length = width) :
    Compared type bytes n before (body here)
      ((checkLength type width (some n) >>= fun _ => body) here) := by
  by_cases same : n = width
  · have unchanged : (checkLength type width (some n) >>= fun _ => body) here = body here := by
      rw [Reader.bind_ok (checkLength_ok (.inr (congrArg some same)) here)]
    rw [unchanged, same]
    refine ⟨fun a after read => (reads a after read).1, fun a after => ?_,
      fun a after read other => absurd (reads a after read).2 other⟩
    exact ⟨fun read => ⟨read, (reads a after read).2⟩, And.left⟩
  · have refused : (checkLength type width (some n) >>= fun _ => body) here =
        .error (.wrongLength type width n) here := by
      rw [checkLength, if_neg same]
      rfl
    rw [refused]
    refine ⟨fun a after read => (reads a after read).1, fun a after => ?_,
      fun a after read _ => ⟨here, by rw [(reads a after read).2]⟩⟩
    constructor
    · intro read
      cases read
    · rintro ⟨read, length⟩
      exact absurd (length.symm.trans (reads a after read).2) same

theorem of_error {e other : Error} {last : Cursor} :
    Compared type bytes n before (.error e last) (.error other here) :=
  ⟨nofun, fun _ _ => ⟨nofun, nofun⟩, nofun⟩

theorem map {β : Type} {reader lengthened : Reader α} {wrap : α → β} {bytes' : β → Bytes}
    (h : Compared type bytes n before (reader here) (lengthened here))
    (same : ∀ a, bytes' (wrap a) = bytes a) :
    Compared type bytes' n before ((reader >>= fun a => pure (wrap a)) here)
      ((lengthened >>= fun a => pure (wrap a)) here) := by
  refine ⟨fun b after read => ?_, fun b after => ?_, fun b after read other => ?_⟩
  · obtain ⟨a, alone, rfl⟩ := Reader.bind_pure_eq_ok.mp read
    rw [same]
    exact h.passes a after alone
  · rw [Reader.bind_pure_eq_ok, Reader.bind_pure_eq_ok]
    constructor
    · rintro ⟨a, read, rfl⟩
      obtain ⟨read, length⟩ := (h.agrees a after).mp read
      exact ⟨⟨a, read, rfl⟩, by rw [same, length]⟩
    · rintro ⟨⟨a, read, rfl⟩, length⟩
      rw [same] at length
      exact ⟨a, (h.agrees a after).mpr ⟨read, length⟩, rfl⟩
  · obtain ⟨a, alone, rfl⟩ := Reader.bind_pure_eq_ok.mp read
    rw [same] at other ⊢
    obtain ⟨last, refused⟩ := h.differs a after alone other
    exact ⟨last, Reader.bind_error _ refused⟩

end Compared

section Leaves
variable {n : Nat} {before : Cursor}

theorem Unsigned.compared (width : Width) : Compared width.typeName toBytes n before
    (read width none before) (read width (some n) before) := by
  refine .of_checkLength fun u after h => ⟨passes_read h, ?_⟩
  obtain ⟨-, middle, -, h⟩ := Reader.bind_eq_ok.mp h
  obtain ⟨octets, -, rfl⟩ := Reader.bind_pure_eq_ok.mp h
  exact length_beBytes _ _

theorem Hash.compared (width : HashWidth) : Compared width.typeName toBytes n before
    (read width none before) (read width (some n) before) := by
  refine .of_checkLength fun hash after h => ⟨passes_read h, ?_⟩
  obtain ⟨-, middle, -, h⟩ := Reader.bind_eq_ok.mp h
  obtain ⟨octets, -, rfl⟩ := Reader.bind_pure_eq_ok.mp h
  exact octets.property

theorem Currency.compared : Compared LeafType.currency.name Currency.bytes n before
    (read none before) (read (some n) before) :=
  .of_checkLength fun currency _ h => ⟨passes_read h, currency.length_bytes⟩

theorem Quantity.compared : Compared LeafType.number.name toBytes n before
    (read none before) (read (some n) before) :=
  .of_checkLength fun _ _ h => ⟨passes_read h, by simp [toBytes]⟩

theorem AccountId.compared (nonzero : n ≠ 0) : Compared LeafType.account.name AccountId.bytes n
    before (read none before) (read (some n) before) := by
  have announced : read (some n) = checkLength typeName 20 (some n) >>= fun _ => read none := by
    rw [read, if_neg (fun h => nonzero (Option.some.inj h))]
    rfl
  rw [announced]
  refine .of_checkLength fun account after h => ⟨?_, account.length_bytes⟩
  have unannounced : ¬ (none : Option Nat) = some 0 := by simp
  exact ((passes_read h).resolve_left fun nothing => unannounced nothing.1).2

theorem Asset.compared : Compared LeafType.asset.name toBytes n before
    (read none before) (read (some n) before) := by
  cases h : readAny before with
  | error e last =>
    rw [read, read, Reader.bind_error _ h, Reader.bind_error _ h]
    exact .of_error
  | ok asset middle =>
    have alone : read none before = .ok asset middle := by
      rw [read, Reader.bind_ok h]
      rfl
    have announced : read (some n) before =
        (checkLength typeName asset.toBytes.length (some n) >>= fun _ => pure asset) middle := by
      rw [read, Reader.bind_ok h]
    rw [alone, announced]
    refine .of_checkLength fun asset' after made => ?_
    cases made
    exact ⟨passes_readAny h, rfl⟩

theorem Amount.compared : Compared LeafType.amount.name toBytes n before
    (read none before) (read (some n) before) := by
  cases looked : Reader.peek before with
  | error e last =>
    rw [read, read, Reader.bind_error _ looked, Reader.bind_error _ looked]
    exact .of_error
  | ok first middle =>
    by_cases small : first < 128
    · have branch (announced : Option Nat) : read announced before =
          (checkLength typeName 8 announced >>= fun _ => do
            return nativeOfWord (← Reader.natural 8)) middle := by
        rw [read, Reader.bind_ok looked, if_pos small]
      have alone := branch none
      rw [alone, branch (some n)]
      refine .of_checkLength fun amount after h => ⟨passes_read (alone.trans h), ?_⟩
      obtain ⟨-, middle, -, h⟩ := Reader.bind_eq_ok.mp h
      obtain ⟨word, -, rfl⟩ := Reader.bind_pure_eq_ok.mp h
      exact length_beBytes _ _
    · have branch (announced : Option Nat) : read announced before =
          (checkLength typeName 48 announced >>= fun _ => readIssued) middle := by
        rw [read, Reader.bind_ok looked, if_neg small]
      have alone := branch none
      rw [alone, branch (some n)]
      refine .of_checkLength fun amount after h => ⟨passes_read (alone.trans h), ?_⟩
      obtain ⟨-, middle, -, h⟩ := Reader.bind_eq_ok.mp h
      obtain ⟨octets, last, -, h⟩ := Reader.bind_eq_ok.mp h
      split at h
      · cases h
        simp [issuedOfWord, toBytes, Currency.length_bytes, AccountId.length_bytes]
      · cases h

theorem Leaf.compared {type : LeafType} (use : type.lengthUse = .compares)
    (nonzero : type = .account → n ≠ 0) : Compared type.name toBytes n before
      (read type none before) (read type (some n) before) := by
  cases type with
  | blob | hashes | paths | bridge => cases use
  | unsigned width => exact (Unsigned.compared width).map fun _ => rfl
  | hash width => exact (Hash.compared width).map fun _ => rfl
  | currency => exact Currency.compared.map fun _ => rfl
  | account => exact (AccountId.compared (nonzero rfl)).map fun _ => rfl
  | amount => exact Amount.compared.map fun _ => rfl
  | asset => exact Asset.compared.map fun _ => rfl
  | number => exact Quantity.compared.map fun _ => rfl

theorem Leaf.passes_announced {type : LeafType} (use : type.lengthUse ≠ .overlooks) {leaf : Leaf}
    {after : Cursor} (h : read type (some n) before = .ok leaf after) :
    ∃ bytes, Passes before bytes after ∧ bytes.length = n := by
  cases uses : type.lengthUse with
  | overlooks => exact absurd uses use
  | compares =>
    by_cases empty : type = .account ∧ n = 0
    · obtain ⟨rfl, rfl⟩ := empty
      cases h
      exact ⟨[], .nothing before, rfl⟩
    · have compared : Compared type.name toBytes n before (read type none before)
          (read type (some n) before) :=
        Leaf.compared uses fun account none => empty ⟨account, none⟩
      obtain ⟨alone, length⟩ := (compared.agrees leaf after).mp h
      exact ⟨_, compared.passes leaf after alone, length⟩
  | takes =>
    cases type with
    | blob =>
      obtain ⟨blob, blob_read, -⟩ := Reader.bind_pure_eq_ok.mp h
      obtain ⟨passed, length⟩ := Blob.passes_read blob_read
      exact ⟨_, passed, length.symm⟩
    | hashes =>
      obtain ⟨list, list_read, -⟩ := Reader.bind_pure_eq_ok.mp h
      obtain ⟨passed, length⟩ := HashList.passes_read list_read
      exact ⟨_, passed, length.symm⟩
    | _ => cases uses

end Leaves

def Field.unprefixed (field : Field) : Field := { field with variableLength := false }

namespace Registry
variable {registry : Registry} {field : Field} {rounds levels : Nat}

theorem valueAt_leaf_unprefixed {type : LeafType} (typed : field.wireType? = some (.leaf type)) :
    Reader.valueAt registry rounds levels field.unprefixed =
      (Leaf.read type none >>= fun leaf => pure (.leaf leaf)) := by
  have same : field.unprefixed.wireType? = some (.leaf type) := typed
  rw [valueAt_leaf same]
  rfl

section Marked
variable (marked : field.variableLength = true)
include marked

theorem valueAt_leaf_announced {type : LeafType} (typed : field.wireType? = some (.leaf type))
    {before middle : Cursor} {n : Nat} (length_read : LengthPrefix.read before = .ok n middle) :
    Reader.valueAt registry rounds levels field before =
      (Leaf.read type (some n) >>= fun leaf => pure (.leaf leaf)) middle := by
  rw [valueAt_leaf typed, announcement, if_pos marked, Reader.bind_ok (map_ok _ length_read)]

theorem compared_valueAt {type : LeafType} (typed : field.wireType? = some (.leaf type))
    (use : type.lengthUse = .compares) {before middle : Cursor} {n : Nat}
    (nonzero : type = .account → n ≠ 0) (length_read : LengthPrefix.read before = .ok n middle) :
    Compared type.name Value.toBytes n middle
      (Reader.valueAt registry rounds levels field.unprefixed middle)
      (Reader.valueAt registry rounds levels field before) := by
  rw [valueAt_leaf_announced marked typed length_read, valueAt_leaf_unprefixed typed]
  exact (Leaf.compared use nonzero).map fun _ => rfl

theorem honoursLength_valueAt {type : WireType} (typed : field.wireType? = some type)
    (use : type.lengthUse ≠ .overlooks) :
    HonoursLength (Reader.valueAt registry rounds levels field) := by
  intro before middle after n value length_read read
  cases type with
  | leaf type =>
    rw [valueAt_leaf_announced marked typed length_read] at read
    obtain ⟨leaf, leaf_read, -⟩ := Reader.bind_pure_eq_ok.mp read
    exact Leaf.passes_announced use leaf_read
  | object | array => exact absurd rfl use

/-- A lawful registry gives a length only to values whose readers look at it. -/
theorem Known.honoursLength (lawful : registry.Lawful) (known : registry.Known field) :
    HonoursLength (Reader.valueAt registry rounds levels field) := by
  obtain ⟨type, typed, prefixed⟩ := lawful.typed field known.listed known.serialized
  rw [marked] at prefixed
  exact honoursLength_valueAt marked typed (type.not_overlooks_of_prefixed prefixed.symm)

theorem valueAt_overlooked {type : WireType} (typed : field.wireType? = some type)
    (use : type.lengthUse = .overlooks) :
    Reader.valueAt registry rounds levels field =
      LengthPrefix.read >>= fun _ => Reader.valueAt registry rounds levels field.unprefixed := by
  have container (kind : Container) (typed : field.wireType? = some kind.type) :
      Reader.valueAt registry rounds levels field =
        LengthPrefix.read >>= fun _ => Reader.valueAt registry rounds levels field.unprefixed := by
    have same : field.unprefixed.wireType? = some kind.type := typed
    rw [valueAt_container typed, valueAt_container same, announcement, if_pos marked, bind_map_left]
    rfl
  cases type with
  | leaf type =>
    rw [valueAt_leaf typed, valueAt_leaf_unprefixed typed, announcement, if_pos marked,
      bind_map_left]
    cases type with
    | paths | bridge => rfl
    | _ => cases use
  | object => exact container .object typed
  | array => exact container .array typed

/-- Any length in front of a value that is read alone to the end of the buffer is passed over, the
wrong ones as well. -/
theorem not_honoursLength {type : WireType} (typed : field.wireType? = some type)
    (use : type.lengthUse = .overlooks) {body : Bytes} {value : Value} (short : body.length < 192)
    (read : Reader.valueAt registry (body.length + 1) topLevels field.unprefixed ⟨1, body⟩ =
      .ok value ⟨1 + body.length, []⟩) : ¬ HonoursLength (Reader.value registry field) := by
  intro honours
  have encoded : LengthPrefix.encode (body.length + 1) = .ok [UInt8.ofNat (body.length + 1)] :=
    if_pos short
  have length_read := LengthPrefix.read_encode encoded 0 body
  have whole : Reader.value registry field ⟨0, [UInt8.ofNat (body.length + 1)] ++ body⟩ =
      .ok value ⟨1 + body.length, []⟩ := by
    have counted : Reader.remaining ⟨0, [UInt8.ofNat (body.length + 1)] ++ body⟩ =
        .ok (body.length + 1) ⟨0, [UInt8.ofNat (body.length + 1)] ++ body⟩ := rfl
    rw [Reader.value, Reader.bind_ok counted, valueAt_overlooked marked typed use,
      Reader.bind_ok length_read]
    exact read
  obtain ⟨bytes, passed, length⟩ := honours _ _ _ _ _ length_read whole
  have all : body = bytes ++ [] := passed.rest
  rw [List.append_nil] at all
  rw [← all] at length
  exact absurd length (Nat.ne_of_lt (Nat.lt_succ_self _))

theorem not_honoursLength_leaf {type : LeafType} (typed : field.wireType? = some (.leaf type))
    (use : type.lengthUse = .overlooks) {body : Bytes} {leaf : Leaf} (short : body.length < 192)
    (reads : Reads (Leaf.read type none) body leaf) :
    ¬ HonoursLength (Reader.value registry field) := by
  have read := reads 1 []
  rw [List.append_nil] at read
  have value_read : Reader.valueAt registry (body.length + 1) topLevels field.unprefixed
      ⟨1, body⟩ = .ok (.leaf leaf) ⟨1 + body.length, []⟩ := by
    rw [valueAt_leaf_unprefixed typed, Reader.bind_ok read]
    rfl
  exact not_honoursLength marked typed use short value_read

theorem not_honoursLength_container (kind : Container) (typed : field.wireType? = some kind.type)
    {body : Bytes} (short : body.length < 192)
    (read : containerBytes registry (body.length + 1) topLevels kind ⟨1, body⟩ =
      .ok body ⟨1 + body.length, []⟩) : ¬ HonoursLength (Reader.value registry field) := by
  have same : field.unprefixed.wireType? = some kind.type := typed
  have value_read : Reader.valueAt registry (body.length + 1) topLevels field.unprefixed
      ⟨1, body⟩ = .ok (kind.value body) ⟨1 + body.length, []⟩ := by
    rw [valueAt_container same]
    exact map_ok _ read
  exact not_honoursLength marked typed (by cases kind <;> rfl) short value_read

end Marked

theorem exists_small_leaf {type : LeafType} (use : type.lengthUse = .overlooks) :
    ∃ leaf body, Reads (Leaf.read type none) body leaf ∧ body.length < 192 := by
  cases type with
  | paths =>
    have canonical : PathSet.Canonical ⟨[]⟩ := fun _ member => absurd member List.not_mem_nil
    exact ⟨_, _, (PathSet.read_toBytes canonical).map rfl, by decide⟩
  | bridge =>
    have canonical : Bridge.Canonical ⟨.zero, .native, .zero, .native⟩ := ⟨trivial, trivial⟩
    exact ⟨_, _, (Bridge.read_toBytes canonical).map rfl, by decide⟩
  | _ => cases use

theorem containerBytes_empty (rounds levels position : Nat) :
    containerBytes registry rounds (levels + 1) .object ⟨position, []⟩ =
      .ok [] ⟨position, []⟩ := by
  have read : Reader.entries registry rounds (levels + 1) ⟨position, []⟩ = .ok [] ⟨position, []⟩ :=
    entriesWith_empty _ rounds position
  exact Reader.bind_eq_ok.mpr ⟨_, _, Reader.consumed_ok read (.nothing _), rfl⟩

variable (registry) in
/-- A header stands for the marker that closes arrays. -/
def ClosesArrays : Prop :=
  ∃ header field, registry.fieldOfHeader header = .ok field ∧ field.name = arrayEndName

theorem exists_small_array (closes : registry.ClosesArrays) : ∃ body : Bytes, body.length < 192 ∧
    ∀ rounds levels position, containerBytes registry (rounds + 1) (levels + 1) .array
      ⟨position, body⟩ = .ok body ⟨position + body.length, []⟩ := by
  obtain ⟨header, field, found, ends⟩ := closes
  obtain ⟨-, type, code⟩ := codes_of_header? (known_of_fieldOfHeader found).2
  have named : Reads (Reader.field registry) header.encode field := by
    refine (FieldHeader.reads_encode type code).map ?_
    rw [found]
    rfl
  have short : header.encode.length ≤ 3 := by
    rw [FieldHeader.encode]
    split <;> split <;> simp
  refine ⟨header.encode, by omega, fun rounds levels position => ?_⟩
  have here := named position []
  rw [List.append_nil] at here
  have read : Reader.elements registry (rounds + 1) (levels + 1) ⟨position, header.encode⟩ =
      .ok [] ⟨position + header.encode.length, []⟩ :=
    (elementsWith_eq_ok _).mpr (.arrayEnd here ends)
  have passed : Passes ⟨position, header.encode⟩ header.encode
      ⟨position + header.encode.length, []⟩ := ⟨(List.append_nil _).symm, rfl⟩
  exact Reader.bind_eq_ok.mpr ⟨_, _, Reader.consumed_ok read passed, rfl⟩

theorem closesArrays_of_elementsWith {inner : Reader (List Entry)} {elements : List Element}
    {before after : Cursor}
    (h : Reader.elementsWith registry inner rounds before = .ok elements after) :
    registry.ClosesArrays := by
  induction rounds generalizing before elements with
  | zero => cases h
  | succ rounds ih =>
    cases (elementsWith_eq_ok _).mp h with
    | arrayEnd named ends =>
      obtain ⟨header, _, -, found⟩ := Reader.bind_eq_ok.mp named
      exact ⟨header, _, (Reader.ofExcept_eq_ok.mp found).1, ends⟩
    | element _ _ _ _ others_read => exact ih others_read

theorem closesArrays_of_elements {elements : List Element} {before after : Cursor}
    (h : Reader.elements registry rounds levels before = .ok elements after) :
    registry.ClosesArrays := by
  cases levels with
  | zero => cases h
  | succ levels => exact closesArrays_of_elementsWith h

theorem closesArrays_of_value (typed : field.wireType? = some Container.array.type) {value : Value}
    {before after : Cursor} (h : Reader.value registry field before = .ok value after) :
    registry.ClosesArrays := by
  obtain ⟨rounds, _, counted, read⟩ := Reader.bind_eq_ok.mp h
  cases counted
  rw [valueAt_container typed] at read
  obtain ⟨announced, middle, -, read⟩ := Reader.bind_eq_ok.mp read
  rw [← bind_pure_comp] at read
  obtain ⟨bytes, _, body_read, -⟩ := Reader.bind_eq_ok.mp read
  obtain ⟨⟨elements, body⟩, _, consumed, -⟩ := Reader.bind_eq_ok.mp body_read
  exact closesArrays_of_elements (Reader.consumed_eq_ok consumed).1

theorem honoursLength_iff {type : WireType} (marked : field.variableLength = true)
    (typed : field.wireType? = some type) (use : type.lengthUse = .overlooks) :
    HonoursLength (Reader.value registry field) ↔ type = .array ∧ ¬ registry.ClosesArrays := by
  constructor
  · intro honours
    cases type with
    | leaf type =>
      obtain ⟨leaf, body, reads, short⟩ := exists_small_leaf use
      exact absurd honours (not_honoursLength_leaf marked typed use short reads)
    | object =>
      have read : containerBytes registry (([] : Bytes).length + 1) topLevels .object ⟨1, []⟩ =
          .ok [] ⟨1, []⟩ := containerBytes_empty _ maxNesting 1
      exact absurd honours (not_honoursLength_container marked .object typed (by decide) read)
    | array =>
      refine ⟨rfl, fun closes => ?_⟩
      obtain ⟨body, short, read⟩ := exists_small_array closes
      exact not_honoursLength_container marked .array typed short
        (read body.length maxNesting 1) honours
  · rintro ⟨rfl, open_ended⟩
    intro before middle after n value _ read
    exact absurd (closesArrays_of_value typed read) open_ended

/-- The lengths of a field are honoured, but those of path sets, bridges and containers, which are
passed over. -/
theorem declared_length {type : WireType} (marked : field.variableLength = true)
    (typed : field.wireType? = some type) :
    (type.lengthUse ≠ .overlooks → ∀ rounds levels,
      HonoursLength (Reader.valueAt registry rounds levels field)) ∧
    (type.lengthUse = .compares → ∀ rounds levels before middle n,
      LengthPrefix.read before = .ok n middle → (type = .leaf .account → n ≠ 0) →
      Compared type.name Value.toBytes n middle
        (Reader.valueAt registry rounds levels field.unprefixed middle)
        (Reader.valueAt registry rounds levels field before)) ∧
    (type.lengthUse = .overlooks →
      (∀ rounds levels, Reader.valueAt registry rounds levels field =
        LengthPrefix.read >>= fun _ => Reader.valueAt registry rounds levels field.unprefixed) ∧
      (HonoursLength (Reader.value registry field) ↔ type = .array ∧ ¬ registry.ClosesArrays)) := by
  refine ⟨fun use rounds levels => honoursLength_valueAt marked typed use,
    fun use rounds levels before middle n length_read nonzero => ?_,
    fun use => ⟨fun rounds levels => valueAt_overlooked marked typed use,
      honoursLength_iff marked typed use⟩⟩
  cases type with
  | leaf type =>
    have nonzero_leaf (account : type = .account) : n ≠ 0 := nonzero (by rw [account])
    exact compared_valueAt marked typed use nonzero_leaf length_read
  | object | array => cases use

def lengthened : Document where
  types := [("Amount", 6), ("PathSet", 18)]
  fields := [("Fee", ⟨8, true, true, true, "Amount"⟩), ("Paths", ⟨1, true, true, true, "PathSet"⟩)]
  ledgerEntryTypes := []
  transactionResults := []
  transactionTypes := []

def feeField : Field := ⟨"Fee", 8, true, true, true, "Amount", 6⟩

def pathsField : Field := ⟨"Paths", 1, true, true, true, "PathSet", 18⟩

theorem declared_length_lengthened :
    ∃ registry, ofJson lengthened.toJson = .ok registry ∧
      feeField ∈ registry.fields ∧ feeField.variableLength = true ∧
      feeField.wireType? = some (.leaf .amount) ∧
      pathsField ∈ registry.fields ∧ pathsField.variableLength = true ∧
      pathsField.wireType? = some (.leaf .paths) ∧
      (∀ rounds levels, HonoursLength (Reader.valueAt registry rounds levels feeField)) ∧
      (∀ rounds levels, ∃ last, Reader.valueAt registry rounds levels feeField
        ⟨0, [9, 64, 0, 0, 0, 0, 0, 0, 12, 0]⟩ = .error (.wrongLength "Amount" 8 9) last) ∧
      ¬ HonoursLength (Reader.value registry pathsField) := by
  obtain ⟨registry, loaded, fields⟩ : ∃ registry, ofJson lengthened.toJson = .ok registry ∧
    registry.fields = [feeField, pathsField] := ⟨_, rfl, rfl⟩
  have fee_typed : feeField.wireType? = some (.leaf .amount) := by decide
  have paths_typed : pathsField.wireType? = some (.leaf .paths) := by decide
  have fee := @declared_length registry feeField _ rfl fee_typed
  have paths := @declared_length registry pathsField _ rfl paths_typed
  refine ⟨registry, loaded, by simp [fields], rfl, fee_typed, by simp [fields], rfl, paths_typed,
    fee.1 (by decide), fun rounds levels => ?_, fun honours => ?_⟩
  · have alone : Reader.valueAt registry rounds levels feeField.unprefixed
        ⟨1, [64, 0, 0, 0, 0, 0, 0, 12, 0]⟩ =
          .ok (.leaf (.amount (.nativeOfWord (beValue [64, 0, 0, 0, 0, 0, 0, 12])))) ⟨9, [0]⟩ := by
      rw [valueAt_leaf_unprefixed fee_typed]
      rfl
    have compared := fee.2.1 rfl rounds levels ⟨0, [9, 64, 0, 0, 0, 0, 0, 0, 12, 0]⟩ _ 9 rfl nofun
    exact compared.differs _ _ alone (by decide)
  · cases ((paths.2.2 rfl).2.mp honours).1

theorem paths_overlook_length :
    ∃ registry, ofJson lengthened.toJson = .ok registry ∧ pathsField ∈ registry.fields ∧
      pathsField.variableLength = true ∧
      LengthPrefix.read ⟨0, [5, 0]⟩ = .ok 5 ⟨1, [0]⟩ ∧
      Reader.value registry pathsField ⟨0, [5, 0]⟩ = .ok (.leaf (.paths ⟨[]⟩)) ⟨2, []⟩ ∧
      ¬ ∃ bytes, Passes ⟨1, [0]⟩ bytes ⟨2, []⟩ ∧ bytes.length = 5 := by
  refine ⟨_, rfl, by decide, rfl, rfl, rfl, ?_⟩
  rintro ⟨bytes, passed, length⟩
  have position : 2 = 1 + bytes.length := passed.position
  omega

end Registry
end LedgerWire
