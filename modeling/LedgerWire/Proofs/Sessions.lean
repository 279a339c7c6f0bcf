import LedgerWire.Proofs.Progress
import LedgerWire.Session.Descent

namespace LedgerWire

def deepened {α : Type} (depth reached : Nat) :
    EStateM.Result Error Cursor α → EStateM.Result Error Descent α
  | .ok a cursor => .ok a ⟨cursor, depth, reached⟩
  | .error e cursor => .error e ⟨cursor, depth, reached⟩

/-- Where so many containers are open the counting reader does what the other one does. It closes
what it opens, and has never more open than may be. -/
def Follows {α : Type} (counting : DepthReader α) (reader : Reader α) (depth : Nat) : Prop :=
  ∀ cursor deepest, ∃ reached, deepest ≤ reached ∧ reached ≤ max deepest topLevels ∧
    counting ⟨cursor, depth, deepest⟩ = deepened depth reached (reader cursor)

namespace Follows
variable {α β : Type} {counting : DepthReader α} {next : α → DepthReader β} {reader : Reader α}
  {then_reader : α → Reader β} {depth : Nat}

theorem lift (reader : Reader α) (depth : Nat) :
    Follows (DepthReader.lift reader) reader depth := by
  intro cursor deepest
  refine ⟨deepest, Nat.le_refl _, Nat.le_max_left _ _, ?_⟩
  unfold DepthReader.lift
  cases reader cursor <;> rfl

theorem pure (a : α) (depth : Nat) : Follows (Pure.pure a) (Pure.pure a) depth :=
  lift (Pure.pure a) depth

theorem throw (e : Error) (depth : Nat) :
    Follows (throw e : DepthReader α) (throw e) depth :=
  lift (MonadExcept.throw e) depth

theorem bind (h : Follows counting reader depth)
    (each : ∀ a, Follows (next a) (then_reader a) depth) :
    Follows (counting >>= next) (reader >>= then_reader) depth := by
  intro cursor deepest
  obtain ⟨reached, low, high, first⟩ := h cursor deepest
  cases read : reader cursor with
  | error e after =>
    refine ⟨reached, low, high, ?_⟩
    rw [read] at first
    rw [Reader.bind_error then_reader read]
    simp only [Bind.bind, EStateM.bind, first, deepened]
  | ok a after =>
    obtain ⟨further, low', high', second⟩ := each a after reached
    refine ⟨further, Nat.le_trans low low', by omega, ?_⟩
    rw [read] at first
    rw [Reader.bind_ok read, ← second]
    simp only [Bind.bind, EStateM.bind, first, deepened]

theorem wrap {f : α → β} (h : Follows counting reader depth) :
    Follows (counting >>= fun a => Pure.pure (f a)) (reader >>= fun a => Pure.pure (f a)) depth :=
  h.bind fun a => pure (f a) depth

theorem map (f : α → β) (h : Follows counting reader depth) :
    Follows (f <$> counting) (f <$> reader) depth := by
  rw [← bind_pure_comp, ← bind_pure_comp]
  exact h.wrap

theorem look {next : Descent → DepthReader β} {then_reader : Cursor → Reader β}
    (each : ∀ place, Follows (next place) (then_reader place.cursor) depth) :
    Follows (get >>= next) (get >>= then_reader) depth :=
  fun cursor deepest => each ⟨cursor, depth, deepest⟩ cursor deepest

theorem consumed (h : Follows counting reader depth) :
    Follows (DepthReader.consumed counting) (Reader.consumed reader) depth :=
  look fun _ => h.bind fun _ => look fun _ => pure _ depth

theorem announced {next : Option Nat → DepthReader β} {then_reader : Option Nat → Reader β}
    (each : ∀ announced, Follows (next announced) (then_reader announced) depth) (field : Field) :
    Follows
      (if field.variableLength then (some <$> DepthReader.lift LengthPrefix.read) >>= next
        else Pure.pure none >>= next)
      (if field.variableLength then (some <$> LengthPrefix.read) >>= then_reader
        else Pure.pure none >>= then_reader) depth := by
  split
  · exact ((lift LengthPrefix.read depth).map some).bind each
  · exact (pure none depth).bind each

theorem descend (room : depth ≤ maxNesting) (type : WireType)
    (h : Follows counting reader (depth + 1)) :
    Follows (DepthReader.descend type counting) reader depth := by
  intro cursor deepest
  obtain ⟨reached, low, high, inside⟩ := h cursor (max deepest (depth + 1))
  have bound : depth + 1 ≤ topLevels := Nat.succ_le_succ room
  refine ⟨reached, by omega, by omega, ?_⟩
  simp only [DepthReader.descend, if_neg (Nat.not_lt_of_le room), inside]
  cases reader cursor <;> rfl

theorem descend_refused (deep : maxNesting < depth) (type : WireType) (counting : DepthReader α) :
    Follows (DepthReader.descend type counting) (Reader.ofExcept (tooDeep type)) depth := by
  intro cursor deepest
  refine ⟨deepest, Nat.le_refl _, Nat.le_max_left _ _, ?_⟩
  simp only [DepthReader.descend, if_pos deep]
  rfl

end Follows

section Containers
variable {registry : Registry} {depth : Nat}

theorem follows_valueWith {counted_entries : DepthReader (List Entry)}
    {counted_elements : DepthReader (List Element)} {entries : Reader (List Entry)}
    {elements : Reader (List Element)} (objects : Follows counted_entries entries depth)
    (arrays : Follows counted_elements elements depth) (field : Field) :
    Follows (DepthReader.valueWith counted_entries counted_elements field)
      (Reader.valueWith entries elements field) depth := by
  refine .bind (.lift _ _) fun type => ?_
  dsimp only
  refine .announced (fun announced => ?_) field
  cases type with
  | leaf type => exact .wrap (.lift _ _)
  | object => exact objects.consumed.wrap
  | array => exact arrays.consumed.wrap

theorem follows_entriesWith {counted_value : Field → DepthReader Value}
    {readValue : Field → Reader Value}
    (values : ∀ field, Follows (counted_value field) (readValue field) depth) (rounds : Nat) :
    Follows (DepthReader.entriesWith registry counted_value rounds)
      (Reader.entriesWith registry readValue rounds) depth := by
  induction rounds with
  | zero => exact .pure [] depth
  | succ rounds ih =>
    refine .look fun place => ?_
    split
    · exact .pure [] depth
    refine .bind (.lift _ _) fun field => ?_
    split
    · exact .pure [] depth
    exact .bind (values field) fun _ => ih.wrap

theorem follows_elementsWith {counted_entries : DepthReader (List Entry)}
    {entries : Reader (List Entry)} (objects : Follows counted_entries entries depth)
    (rounds : Nat) : Follows (DepthReader.elementsWith registry counted_entries rounds)
      (Reader.elementsWith registry entries rounds) depth := by
  induction rounds with
  | zero => exact .lift _ _
  | succ rounds ih =>
    refine .bind (.lift _ _) fun field => ?_
    split
    · exact .pure [] depth
    dsimp only
    split
    · exact .bind (.throw _ _) fun _ => .bind objects.consumed fun _ => ih.wrap
    · exact .bind objects.consumed fun _ => ih.wrap

variable (registry) in
/-- The containers that are open make up, with the levels that are left, all that may be opened: the
tries never run out before the levels do. -/
theorem follows_containers {tries : Nat} (enough : topLevels < tries + depth) (rounds : Nat) :
    Follows (DepthReader.entries registry rounds tries)
        (Reader.entries registry rounds (topLevels - depth)) depth ∧
      Follows (DepthReader.elements registry rounds tries)
        (Reader.elements registry rounds (topLevels - depth)) depth := by
  induction tries generalizing depth with
  | zero =>
    have none_left : topLevels - depth = 0 := by omega
    have refused {α : Type} (type : WireType) : Follows
        (DepthReader.lift (Reader.ofExcept (tooDeep type : Except Error α)))
        (Reader.ofExcept (tooDeep type)) depth := .lift _ _
    rw [none_left]
    exact ⟨refused .object, refused .array⟩
  | succ tries ih =>
    by_cases deep : maxNesting < depth
    · have none_left : topLevels - depth = 0 := Nat.sub_eq_zero_of_le deep
      rw [none_left]
      exact ⟨.descend_refused deep _ _, .descend_refused deep _ _⟩
    · have room := Nat.le_of_not_lt deep
      have one_less : topLevels - depth = topLevels - (depth + 1) + 1 := by
        unfold topLevels
        omega
      rw [one_less]
      obtain ⟨objects, arrays⟩ := @ih (depth + 1) (by omega)
      exact ⟨.descend room _ (follows_entriesWith (follows_valueWith objects arrays) rounds),
        .descend room _ (follows_elementsWith objects rounds)⟩

end Containers

/-- The reader succeeds where so many bytes are left; anywhere else it reports them missing, and
stays. -/
def Needs {α : Type} (n : Nat) (reader : Reader α) (before : Cursor) : Prop :=
  n ≤ before.remaining ∧ (∃ a after, reader before = .ok a after) ∨
    before.remaining < n ∧
      reader before = .error (.underrun before.position n before.remaining) before

theorem Needs.wrap {α β : Type} {n : Nat} {reader : Reader α} {f : α → β} {before : Cursor}
    (h : Needs n reader before) : Needs n (reader >>= fun a => pure (f a)) before := by
  obtain ⟨enough, a, after, read⟩ | ⟨short, failed⟩ := h
  · exact .inl ⟨enough, f a, after, Reader.bind_pure_eq_ok.mpr ⟨a, read, rfl⟩⟩
  · exact .inr ⟨short, Reader.bind_pure_eq_error.mpr failed⟩

theorem needs_octets (n : Nat) (before : Cursor) : Needs n (Reader.octets n) before := by
  have taken : (before.rest.take n).length = min n before.remaining := List.length_take
  by_cases enough : n ≤ before.remaining
  · rw [Nat.min_eq_left enough] at taken
    exact .inl ⟨enough, _, _, dif_pos taken⟩
  · have short := Nat.lt_of_not_le enough
    rw [Nat.min_eq_right (Nat.le_of_lt short)] at taken
    exact .inr ⟨short, dif_neg (by omega)⟩

theorem needs_peek (before : Cursor) : Needs 1 Reader.peek before := by
  obtain ⟨position, rest⟩ := before
  cases rest with
  | nil => exact .inr ⟨Nat.one_pos, rfl⟩
  | cons first rest => exact .inl ⟨Nat.succ_le_succ (Nat.zero_le _), first, _, rfl⟩

structure Descent.Within (buffer : Bytes) (place : Descent) : Prop where
  extent : place.cursor.position + place.cursor.remaining = buffer.length
  rest : place.cursor.rest = buffer.drop place.cursor.position

theorem Descent.within {buffer : Bytes} {place : Descent}
    (reached : Onward (.start buffer) place.cursor) : place.Within buffer :=
  ⟨reached.extent.trans (Nat.zero_add _), reached.rest_eq_drop⟩

namespace Probe
variable (registry : Registry)

def readFrom (depth : Nat) : Probe → Reader Finding
  | .value target => do
    let before ← get
    return .value target (← Reader.valueAt registry before.remaining (topLevels - depth) target)
  | probe => probe.read registry

def isWhole : Probe → Bool
  | .length | .field | .value _ => false
  | _ => true

def needs? : Probe → Option Nat
  | .peek => some 1
  | .natural n | .take n | .skip n => some n
  | _ => none

/-- What is found at one place is what stands between it and the next place. -/
inductive Finds (before after : Cursor) : Probe → Finding → Prop
  | peek {byte : UInt8} {rest : Bytes} : before.rest = byte :: rest → after = before →
      Finds before after .peek (.natural byte.toNat)
  | natural {bytes : Bytes} : Passes before bytes after →
      Finds before after (.natural bytes.length) (.natural (beValue bytes))
  | length {length : Nat} {bytes : Bytes} : LengthPrefix.encode length = .ok bytes →
      Passes before bytes after → Finds before after .length (.natural length)
  | take {bytes : Bytes} : Passes before bytes after →
      Finds before after (.take bytes.length) (.bytes bytes)
  | skip {bytes : Bytes} : Passes before bytes after →
      Finds before after (.skip bytes.length) .nothing
  | rest : after = before → Finds before after .rest (.bytes before.rest)
  | header {header : FieldHeader} : Passes before header.encode after →
      Finds before after .header (.header header)
  | field {header : FieldHeader} {field : Field} : Passes before header.encode after →
      registry.fieldOfHeader header = .ok field → Finds before after .field (.field field)
  | value {target : Field} {value : Value} : Onward before after →
      Finds before after (.value target) (.value target value)

def outcome : EStateM.Result Error Cursor Finding → Except Error Finding × Cursor
  | .ok finding after => (.ok finding, after)
  | .error e after => (.error e, after)

/-- What comes of a step. A finding is what stands there, a failure to read something whole leaves
the place as it was, and a number of bytes is read exactly where so many are left. -/
structure Yields (probe : Probe) (before : Cursor) (result : Except Error Finding)
    (after : Cursor) : Prop where
  finds : ∀ finding, result = .ok finding → Finds registry before after probe finding
  stays : ∀ e, result = .error e → probe.isWhole = true → after = before
  needs : ∀ n, probe.needs? = some n →
    n ≤ before.remaining ∧ (∃ finding, result = .ok finding) ∨
      before.remaining < n ∧ result = .error (.underrun before.position n before.remaining)

/-- What a step does, from one place to the next: the place stays one of the buffer and does not go
back, what was open stays open and nothing else, and no more are opened than may be. -/
structure Keeps (buffer : Bytes) (probe : Probe) (before : Descent)
    (result : Except Error Finding) (after : Descent) : Prop where
  begins : before.Within buffer
  ends : after.Within buffer
  onward : before.cursor.position ≤ after.cursor.position
  closed : after.depth = before.depth
  deepest : before.deepest ≤ after.deepest ∧ after.deepest ≤ max before.deepest topLevels
  yields : Yields registry probe before.cursor result after.cursor

theorem follows_readDeep (probe : Probe) (depth : Nat) :
    Follows (probe.readDeep registry) (probe.readFrom registry depth) depth := by
  have enough : topLevels < topLevels + 1 + depth := by omega
  cases probe with
  | value target =>
    rw [readDeep, DepthReader.value, bind_assoc]
    refine .look fun place => ?_
    obtain ⟨objects, arrays⟩ := follows_containers registry enough place.cursor.remaining
    exact (follows_valueWith objects arrays target).wrap
  | rest => exact .lift (read registry .rest) depth
  | _ => exact .lift _ depth

theorem advances_readFrom (probe : Probe) (depth : Nat) (before : Cursor) :
    Advances (probe.readFrom registry depth) before := by
  cases probe with
  | peek => exact (Advances.peek before).wrap
  | natural width => exact (Advances.natural width before).wrap
  | length => exact (LengthPrefix.advances_read before).wrap
  | take n => exact (Advances.take n before).wrap
  | skip n => exact (Advances.skip n before).wrap
  | rest => exact (Advances.get before).wrap
  | header => exact (FieldHeader.advances_read before).wrap
  | field => exact (Registry.advances_field registry before).wrap
  | value target =>
    refine (Advances.get before).bind fun place middle looked => ?_
    cases looked
    obtain ⟨objects, arrays⟩ := Registry.advances_containers registry before.remaining
      (topLevels - depth)
    have advances := Registry.advances_valueWith objects arrays target before (Nat.le_refl _)
    exact advances.wrap

variable {registry} in
theorem finds_readFrom {probe : Probe} {depth : Nat} {before after : Cursor} {finding : Finding}
    (h : probe.readFrom registry depth before = .ok finding after) :
    Finds registry before after probe finding := by
  cases probe with
  | peek =>
    obtain ⟨byte, looked, rfl⟩ := Reader.bind_pure_eq_ok.mp h
    obtain ⟨position, bytes⟩ := before
    cases bytes with
    | nil => cases looked
    | cons first rest =>
      cases looked
      exact .peek rfl rfl
  | natural width =>
    obtain ⟨n, read, rfl⟩ := Reader.bind_pure_eq_ok.mp h
    obtain ⟨octets, taken, rfl⟩ := Reader.bind_pure_eq_ok.mp read
    obtain ⟨bytes, rfl⟩ := octets
    exact .natural (passes_octets taken)
  | length =>
    obtain ⟨length, read, rfl⟩ := Reader.bind_pure_eq_ok.mp h
    obtain ⟨bytes, encoded, passed⟩ := LengthPrefix.passes_read read
    exact .length encoded passed
  | take n =>
    obtain ⟨bytes, taken, rfl⟩ := Reader.bind_pure_eq_ok.mp h
    obtain ⟨passed, rfl⟩ := passes_take taken
    exact .take passed
  | skip n =>
    obtain ⟨_, skipped, rfl⟩ := Reader.bind_pure_eq_ok.mp h
    obtain ⟨octets, taken, -⟩ := Reader.bind_pure_eq_ok.mp skipped
    obtain ⟨bytes, rfl⟩ := octets
    exact .skip (passes_octets taken)
  | rest =>
    cases h
    exact .rest rfl
  | header =>
    obtain ⟨header, read, rfl⟩ := Reader.bind_pure_eq_ok.mp h
    exact .header (FieldHeader.passes_read read)
  | field =>
    obtain ⟨field, named, rfl⟩ := Reader.bind_pure_eq_ok.mp h
    obtain ⟨header, middle, read, found⟩ := Reader.bind_eq_ok.mp named
    obtain ⟨known, rfl⟩ := Reader.ofExcept_eq_ok.mp found
    exact .field (FieldHeader.passes_read read) known
  | value target =>
    obtain ⟨place, middle, looked, read⟩ := Reader.bind_eq_ok.mp h
    obtain ⟨value, -, rfl⟩ := Reader.bind_pure_eq_ok.mp read
    exact .value ((advances_readFrom registry _ depth before).reads _ _ h)

theorem needs_readFrom {probe : Probe} {n : Nat} (needs : probe.needs? = some n) (depth : Nat)
    (before : Cursor) : Needs n (probe.readFrom registry depth) before := by
  cases probe with
  | peek =>
    cases needs
    exact (needs_peek before).wrap
  | natural | take | skip =>
    cases needs
    exact (needs_octets n before).wrap.wrap
  | length | rest | header | field | value => cases needs

variable {registry} in
theorem stays_readFrom {probe : Probe} {depth : Nat} {before after : Cursor} {e : Error}
    (whole : probe.isWhole = true) (h : probe.readFrom registry depth before = .error e after) :
    after = before := by
  cases needs : probe.needs? with
  | some n =>
    obtain ⟨-, finding, last, read⟩ | ⟨-, failed⟩ := needs_readFrom registry needs depth before
    · rw [h] at read
      cases read
    · rw [h] at failed
      cases failed
      rfl
  | none =>
    cases probe with
    | header => exact FieldHeader.stays_read (Reader.bind_pure_eq_error.mp h)
    | rest => cases h
    | length | field | value => cases whole
    | peek | natural | take | skip => cases needs

theorem yields_readFrom (probe : Probe) (depth : Nat) (before : Cursor) :
    Yields registry probe before (outcome (probe.readFrom registry depth before)).1
      (outcome (probe.readFrom registry depth before)).2 where
  finds finding found := by
    cases read : probe.readFrom registry depth before with
    | error e after =>
      rw [read] at found
      cases found
    | ok other after =>
      rw [read] at found
      cases found
      exact finds_readFrom read
  stays e failed whole := by
    cases read : probe.readFrom registry depth before with
    | error other after => exact stays_readFrom whole read
    | ok finding after =>
      rw [read] at failed
      cases failed
  needs n needs := by
    obtain ⟨enough, finding, after, read⟩ | ⟨short, failed⟩ :=
      needs_readFrom registry needs depth before
    · exact .inl ⟨enough, finding, by rw [read]; rfl⟩
    · exact .inr ⟨short, by rw [failed]; rfl⟩

theorem onward_readFrom (probe : Probe) (depth : Nat) (before : Cursor) :
    Onward before (outcome (probe.readFrom registry depth before)).2 := by
  have advances := advances_readFrom registry probe depth before
  cases read : probe.readFrom registry depth before with
  | ok finding after => exact advances.reads _ _ read
  | error e after => exact (advances.fails _ _ read).1

/-- A step reads what it reads without counting, and what it opens it closes. -/
theorem stepDeep_eq (probe : Probe) (before : Descent) :
    ∃ reached, before.deepest ≤ reached ∧ reached ≤ max before.deepest topLevels ∧
      probe.stepDeep registry before =
        ((outcome (probe.readFrom registry before.depth before.cursor)).1,
          ⟨(outcome (probe.readFrom registry before.depth before.cursor)).2, before.depth,
            reached⟩) := by
  obtain ⟨reached, low, high, same⟩ :=
    follows_readDeep registry probe before.depth before.cursor before.deepest
  refine ⟨reached, low, high, ?_⟩
  rw [stepDeep, same]
  cases probe.readFrom registry before.depth before.cursor <;> rfl

theorem keeps_stepDeep {buffer : Bytes} (probe : Probe) {before : Descent}
    (reached : Onward (.start buffer) before.cursor) :
    Keeps registry buffer probe before (probe.stepDeep registry before).1
        (probe.stepDeep registry before).2 ∧
      Onward (.start buffer) (probe.stepDeep registry before).2.cursor := by
  obtain ⟨deepest, low, high, same⟩ := stepDeep_eq registry probe before
  have onward := onward_readFrom registry probe before.depth before.cursor
  have further := reached.trans onward
  rw [same]
  exact ⟨{
    begins := Descent.within reached
    ends := Descent.within further
    onward := onward.position_le
    closed := rfl
    deepest := ⟨low, high⟩
    yields := yields_readFrom registry probe before.depth before.cursor }, further⟩

theorem reached_walkDeep {buffer : Bytes} (probes : List Probe) {start : Descent}
    (reached : Onward (.start buffer) start.cursor) :
    Onward (.start buffer) (walkDeep registry probes start).cursor ∧
      (walkDeep registry probes start).depth = start.depth ∧
      (walkDeep registry probes start).deepest ≤ max start.deepest topLevels := by
  induction probes generalizing start with
  | nil => exact ⟨reached, rfl, Nat.le_max_left _ _⟩
  | cons probe probes ih =>
    obtain ⟨kept, further⟩ := keeps_stepDeep registry probe reached
    obtain ⟨onward, depth, deepest⟩ := ih further
    have within := kept.deepest.2
    refine ⟨onward, depth.trans kept.closed, Nat.le_trans deepest ?_⟩
    omega

theorem step_eq_stepDeep (probe : Probe) {before : Descent} (closed : before.depth = 0) :
    probe.step registry before.cursor =
      ((probe.stepDeep registry before).1, (probe.stepDeep registry before).2.cursor) := by
  have same : probe.readFrom registry 0 = probe.read registry := by
    cases probe <;> rfl
  obtain ⟨reached, -, -, deep⟩ := stepDeep_eq registry probe before
  rw [deep, closed, same, step]
  cases probe.read registry before.cursor <;> rfl

theorem depth_stepDeep (probe : Probe) (before : Descent) :
    (probe.stepDeep registry before).2.depth = before.depth := by
  obtain ⟨reached, -, -, deep⟩ := stepDeep_eq registry probe before
  rw [deep]

theorem walk_eq_walkDeep (probes : List Probe) (start : Descent) (closed : start.depth = 0) :
    walk registry probes start.cursor = (walkDeep registry probes start).cursor := by
  induction probes generalizing start with
  | nil => rfl
  | cons probe probes ih =>
    have next : (probe.step registry start.cursor).2 = (probe.stepDeep registry start).2.cursor :=
      congrArg Prod.snd (step_eq_stepDeep registry probe closed)
    have others := ih _ ((depth_stepDeep registry probe start).trans closed)
    rw [← next] at others
    exact others

/-- In every walk from the start of a buffer each step, whether it succeeds or fails, stays within
the buffer, does not go back and closes what it opens; it finds what stands there, and does not move
if it fails to read something whole. With nothing open at the start no more than eleven containers
are ever open, and the walk is the one that does not count them. -/
theorem walk_keeps (buffer : Bytes) (probes : List Probe) (probe : Probe) :
    (∀ depth, let before := walkDeep registry probes (.start depth buffer)
      let next := probe.stepDeep registry before
      Keeps registry buffer probe before next.1 next.2 ∧ next.2.depth = depth ∧
        next.2.deepest ≤ max depth 11) ∧
    let before := walkDeep registry probes (.start 0 buffer)
    walk registry probes (.start buffer) = before.cursor ∧
      probe.step registry before.cursor =
        ((probe.stepDeep registry before).1, (probe.stepDeep registry before).2.cursor) := by
  have started (depth : Nat) : Onward (.start buffer) (Descent.start depth buffer).cursor :=
    .refl _
  refine ⟨fun depth => ?_, walk_eq_walkDeep registry probes (.start 0 buffer) rfl,
    step_eq_stepDeep registry probe ?_⟩
  · obtain ⟨onward, same, deepest⟩ := reached_walkDeep registry probes (started depth)
    obtain ⟨kept, -⟩ := keeps_stepDeep registry probe onward
    have within := kept.deepest.2
    have bound : max depth topLevels = max depth 11 := rfl
    refine ⟨kept, kept.closed.trans same, ?_⟩
    rw [← bound]
    exact Nat.le_trans within (Nat.max_le.mpr ⟨deepest, Nat.le_max_right _ _⟩)
  · exact (reached_walkDeep registry probes (started 0)).2.1

/-- Of twelve memos inside of one another eleven are opened, and all are closed again. -/
theorem walk_keeps_memos :
    ∃ memo : Field, Registry.bundled.field? "Memo" = some memo ∧
      let next := (value memo).stepDeep Registry.bundled (.start 0 (List.replicate 12 0xEA))
      next = (.error (.nestingTooDeep "STObject" 10), ⟨⟨11, [0xEA]⟩, 0, 11⟩) ∧
      Keeps Registry.bundled (List.replicate 12 0xEA) (.value memo)
        (.start 0 (List.replicate 12 0xEA)) next.1 next.2 := by
  have checked : ∃ memo : Field, Registry.bundled.field? "Memo" = some memo ∧
      (value memo).stepDeep Registry.bundled (.start 0 (List.replicate 12 0xEA)) =
        (.error (.nestingTooDeep "STObject" 10), ⟨⟨11, [0xEA]⟩, 0, 11⟩) := by
    rw [Registry.bundled_eq]
    exact ⟨⟨"Memo", 10, false, true, true, "STObject", 14⟩, by decide +kernel⟩
  obtain ⟨memo, named, refused⟩ := checked
  exact ⟨memo, named, refused, ((walk_keeps Registry.bundled _ [] (.value memo)).1 0).1⟩

end Probe
end LedgerWire
