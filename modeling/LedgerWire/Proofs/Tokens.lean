import LedgerWire.Proofs.Address

namespace LedgerWire.Address

theorem find?_version (front back : List Bytes) {version payload : Bytes}
    (unshadowed : ∀ other ∈ front, ¬ other <+: version ++ payload) :
    (front ++ version :: back).find? (·.isPrefixOf (version ++ payload)) = some version := by
  have passed : front.find? (·.isPrefixOf (version ++ payload)) = none := by
    rw [List.find?_eq_none]
    intro other member
    rw [List.isPrefixOf_iff_prefix]
    exact unshadowed other member
  have fits : version.isPrefixOf (version ++ payload) = true :=
    List.isPrefixOf_iff_prefix.mpr (List.prefix_append version payload)
  rw [List.find?_append, passed, List.find?_cons, fits]
  rfl

theorem encodeToken_eq_ok {version payload : Bytes} {n : Nat} {text : String} :
    encodeToken version n payload = .ok text ↔
      payload.length = n ∧ text = sealBody (version ++ payload) := by
  unfold encodeToken
  by_cases length : payload.length = n
  · rw [if_pos length]
    exact ⟨fun h => ⟨length, (Except.ok.inj h).symm⟩, fun h => congrArg Except.ok h.2.symm⟩
  · rw [if_neg length]
    exact ⟨nofun, fun h => absurd h.1 length⟩

theorem encodeToken_wrong_length {version payload : Bytes} {n : Nat}
    (wrong : payload.length ≠ n) :
    encodeToken version n payload = .error (.length n payload.length) :=
  if_neg wrong

theorem decodeToken_encodeToken {front back : List Bytes} {version payload : Bytes} {n : Nat}
    (nonempty : version ++ payload ≠ [])
    (unshadowed : ∀ other ∈ front, ¬ other <+: version ++ payload) (length : payload.length = n) :
    (encodeToken version n payload >>= decodeToken (front ++ version :: back) n) =
      .ok ⟨version, payload, length⟩ := by
  refine bind_eq_ok.mpr ⟨_, encodeToken_eq_ok.mpr ⟨length, rfl⟩, ?_⟩
  exact @decodeToken_sealBody _ version n ⟨payload, length⟩ nonempty
    (find?_version front back unshadowed)

theorem Kind.decode_eq_ok {kind : Kind} {text : String} {payload : Octets kind.length} :
    kind.decode text = .ok payload ↔ kind.encode payload.val = .ok text := by
  rw [Kind.encode, encodeToken_eq_ok, Kind.decode, map_eq_ok]
  constructor
  · rintro ⟨token, read, rfl⟩
    obtain ⟨version, written⟩ := sealBody_of_decodeToken read
    rw [List.mem_singleton.mp version] at written
    exact ⟨token.payload.property, written⟩
  · rintro ⟨-, rfl⟩
    have nonempty : kind.version ++ payload.val ≠ [] := by cases kind <;> simp [Kind.version]
    exact ⟨_, decodeToken_sealBody nonempty (find?_version [] _ (List.forall_mem_nil _)), rfl⟩

theorem find?_seedVersion (algorithm : SeedAlgorithm) (entropy : Bytes) :
    [SeedAlgorithm.ed25519.version, SeedAlgorithm.secp256k1.version].find?
      (·.isPrefixOf (algorithm.version ++ entropy)) = some algorithm.version := by
  cases algorithm with
  | ed25519 => exact find?_version [] _ (List.forall_mem_nil _)
  | secp256k1 =>
    refine find?_version [SeedAlgorithm.ed25519.version] [] fun other member => ?_
    rw [List.mem_singleton.mp member]
    simp [SeedAlgorithm.version]

theorem decodeSeed_eq_ok {text : String} {algorithm : SeedAlgorithm}
    {entropy : Octets seedLength} :
    decodeSeed text = .ok (algorithm, entropy) ↔ encodeSeed algorithm entropy.val = .ok text := by
  rw [encodeSeed, encodeToken_eq_ok]
  constructor
  · intro h
    obtain ⟨token, read, same⟩ := bind_eq_ok.mp h
    obtain ⟨version, written⟩ := sealBody_of_decodeToken read
    have named : token.version = algorithm.version := by
      cases same
      rcases List.mem_cons.mp version with ed25519 | other
      · rw [ed25519, if_pos rfl]
      · rw [List.mem_singleton.mp other, if_neg (by decide)]
    cases same
    rw [← named]
    exact ⟨token.payload.property, written⟩
  · rintro ⟨-, rfl⟩
    have nonempty : algorithm.version ++ entropy.val ≠ [] := by
      cases algorithm <;> simp [SeedAlgorithm.version]
    refine bind_eq_ok.mpr
      ⟨_, decodeToken_sealBody nonempty (find?_seedVersion algorithm entropy.val), ?_⟩
    cases algorithm <;> rfl

/-- The kinds of tokens that texts are read as. -/
inductive TokenKind
  | keyed (kind : Kind)
  | seed
  | tagged
deriving DecidableEq, Repr

def TokenKind.Accepts (text : String) : TokenKind → Prop
  | .keyed kind => ∃ payload, kind.decode text = .ok payload
  | .seed => ∃ seed, decodeSeed text = .ok seed
  | .tagged => ∃ x, TaggedAddress.decode text = .ok x

/-- The one kind that a body may be of, told by its length and its first byte. -/
def TokenKind.ofBody? (body : Bytes) : Option TokenKind :=
  match body.length with
  | 17 | 19 => some .seed
  | 21 => some (.keyed .account)
  | 31 => some .tagged
  | 34 => if body.head? = some 0x1C then some (.keyed .nodePublic) else some (.keyed .accountPublic)
  | _ => none

theorem TokenKind.ofBody?_seed (algorithm : SeedAlgorithm) {entropy : Bytes}
    (length : entropy.length = seedLength) :
    ofBody? (algorithm.version ++ entropy) = some .seed := by
  cases algorithm <;> simp [ofBody?, SeedAlgorithm.version, length, seedLength]

theorem TokenKind.ofBody?_keyed (kind : Kind) {payload : Bytes}
    (length : payload.length = kind.length) :
    ofBody? (kind.version ++ payload) = some (.keyed kind) := by
  cases kind <;> simp [ofBody?, Kind.version, length, Kind.length]

theorem TokenKind.ofBody?_of_accepts {text : String} {kind : TokenKind} (h : kind.Accepts text) :
    ∃ body, openBody text = .ok body ∧ ofBody? body = some kind := by
  cases kind with
  | keyed kind =>
    obtain ⟨payload, read⟩ := h
    obtain ⟨length, rfl⟩ := encodeToken_eq_ok.mp (Kind.decode_eq_ok.mp read)
    have nonempty : kind.version ++ payload.val ≠ [] := by cases kind <;> simp [Kind.version]
    exact ⟨_, openBody_sealBody nonempty, ofBody?_keyed kind length⟩
  | seed =>
    obtain ⟨⟨algorithm, entropy⟩, read⟩ := h
    obtain ⟨length, rfl⟩ := encodeToken_eq_ok.mp (decodeSeed_eq_ok.mp read)
    have nonempty : algorithm.version ++ entropy.val ≠ [] := by
      cases algorithm <;> simp [SeedAlgorithm.version]
    exact ⟨_, openBody_sealBody nonempty, ofBody?_seed algorithm length⟩
  | tagged =>
    obtain ⟨x, read⟩ := h
    obtain ⟨first, rest, opened, length, -⟩ := TaggedAddress.openBody_of_decode read
    exact ⟨first :: rest, opened, by simp [ofBody?, length]⟩

/-- Payloads of the right length and texts correspond one to one, for keys, accounts and seeds; a
payload of another length has no text. A token under any version is read back where no version
before it in the list fits as well. No text is read as tokens of two kinds. -/
theorem tokens_one_to_one :
    (∀ kind payload, ∀ length : payload.length = Kind.length kind,
      (kind.encode payload >>= kind.decode) = .ok ⟨payload, length⟩) ∧
    (∀ kind payload, payload.length ≠ Kind.length kind →
      kind.encode payload = .error (.length kind.length payload.length)) ∧
    (∀ kind text payload, Kind.decode kind text = .ok payload →
      kind.encode payload.val = .ok text) ∧
    (∀ algorithm entropy, ∀ length : entropy.length = seedLength,
      (encodeSeed algorithm entropy >>= decodeSeed) = .ok (algorithm, ⟨entropy, length⟩)) ∧
    (∀ algorithm entropy, entropy.length ≠ seedLength →
      encodeSeed algorithm entropy = .error (.length seedLength entropy.length)) ∧
    (∀ text algorithm entropy, decodeSeed text = .ok (algorithm, entropy) →
      encodeSeed algorithm entropy.val = .ok text) ∧
    (∀ front back version payload n, version ++ payload ≠ [] →
      (∀ other ∈ front, ¬ other <+: version ++ payload) → ∀ length : payload.length = n,
      (encodeToken version n payload >>= decodeToken (front ++ version :: back) n) =
        .ok ⟨version, payload, length⟩) ∧
    (∀ text first second, TokenKind.Accepts text first → TokenKind.Accepts text second →
      first = second) := by
  refine ⟨fun kind payload length => ?_, fun kind payload wrong => encodeToken_wrong_length wrong,
    fun kind text payload read => Kind.decode_eq_ok.mp read, fun algorithm entropy length => ?_,
    fun algorithm entropy wrong => encodeToken_wrong_length wrong,
    fun text algorithm entropy read => decodeSeed_eq_ok.mp read,
    fun front back version payload n => decodeToken_encodeToken,
    fun text first second accepted also_accepted => ?_⟩
  · have made : kind.encode payload = .ok (sealBody (kind.version ++ payload)) :=
      encodeToken_eq_ok.mpr ⟨length, rfl⟩
    exact bind_eq_ok.mpr ⟨_, made, Kind.decode_eq_ok.mpr made⟩
  · have made : encodeSeed algorithm entropy = .ok (sealBody (algorithm.version ++ entropy)) :=
      encodeToken_eq_ok.mpr ⟨length, rfl⟩
    exact bind_eq_ok.mpr ⟨_, made, decodeSeed_eq_ok.mpr made⟩
  · obtain ⟨body, opened, told⟩ := TokenKind.ofBody?_of_accepts accepted
    obtain ⟨same, also_opened, also_told⟩ := TokenKind.ofBody?_of_accepts also_accepted
    rw [opened] at also_opened
    cases also_opened
    rw [told] at also_told
    exact Option.some.inj also_told

end LedgerWire.Address
