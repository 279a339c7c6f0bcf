import LedgerWire.Proofs.Consistency
import LedgerWire.Proofs.Expansion

/-!
Tables of named codes, read by name and by code. A table of a document gives each name its code and
each code its name. The table of permissions is put together from two sources, whose names may
meet: then the name has the code of the second one alone, and both codes have the name.
-/

namespace LedgerWire

/-- A name has a code exactly if the code has the name. -/
def CodeTable.Bidirectional (table : CodeTable) : Prop :=
  ∀ name code, table.code? name = some code ↔ table.name? code = some name

theorem foldlM_keeps {σ α : Type} {step : σ → α → Option σ} {keeps : σ → Prop}
    (each : ∀ before a after, keeps before → step before a = some after → keeps after)
    {as : List α} {first last : σ} (start : keeps first) (made : as.foldlM step first = some last) :
    keeps last := by
  induction as generalizing first with
  | nil =>
    cases made
    exact start
  | cons a as ih =>
    rw [List.foldlM_cons] at made
    obtain ⟨next, taken, rest⟩ := Option.bind_eq_some_iff.mp made
    exact ih (each first a next start taken) rest

theorem Json.distinctNames_of_codes? {json : Json} {codes : Codes} (h : json.codes? = some codes) :
    DistinctNames codes := by
  cases json with
  | object members =>
    have start : DistinctNames ([] : Codes) := List.nodup_nil
    refine foldlM_keeps (fun before member after distinct taken => ?_) start h
    obtain ⟨code, -, set⟩ := Option.bind_eq_some_iff.mp taken
    cases set
    exact distinctNames_setMember distinct
  | _ => cases h

namespace CodeTable
variable {entries : Codes} {name : String} {code : Int32}

theorem name?_eq_some_iff (codes : (entries.map Prod.snd).Nodup) :
    name? ⟨entries⟩ code = some name ↔ (name, code) ∈ entries := by
  rw [name?, Option.map_eq_some_iff]
  simp only [Registry.find?_key_eq_some_iff codes]
  exact ⟨fun ⟨_, ⟨member, coded⟩, named⟩ => by rwa [← named, ← coded],
    fun member => ⟨_, ⟨member, rfl⟩, rfl⟩⟩

theorem mem_of_code? (found : code? ⟨entries⟩ name = some code) : (name, code) ∈ entries :=
  List.mem_reverse.mp (mem_of_lookup found)

theorem code?_eq_some_iff (names : DistinctNames entries) :
    code? ⟨entries⟩ name = some code ↔ (name, code) ∈ entries := by
  refine ⟨mem_of_code?, fun member => lookup_of_mem ?_ (List.mem_reverse.mpr member)⟩
  rw [DistinctNames, List.map_reverse]
  exact List.nodup_reverse.mpr names

theorem code?_append (front back : Codes) :
    code? ⟨front ++ back⟩ name = (code? ⟨back⟩ name).or (code? ⟨front⟩ name) := by
  simp only [code?, List.reverse_append, List.lookup_append]

theorem code?_eq_none (absent : name ∉ entries.map Prod.fst) : code? ⟨entries⟩ name = none := by
  cases found : code? ⟨entries⟩ name with
  | none => rfl
  | some code => exact absurd (List.mem_map_of_mem (f := Prod.fst) (mem_of_code? found)) absent

/-- A table without a code twice is read in both directions exactly if it has no name twice. -/
theorem bidirectional_iff (codes : (entries.map Prod.snd).Nodup) :
    Bidirectional ⟨entries⟩ ↔ DistinctNames entries := by
  constructor
  · intro both
    have found {name : String} {code : Int32} (member : (name, code) ∈ entries) :
        code? ⟨entries⟩ name = some code :=
      (both name code).mpr ((name?_eq_some_iff codes).mpr member)
    refine List.Nodup.map_on ?_ (List.Nodup.of_map _ codes)
    rintro ⟨name, code⟩ member ⟨_, other⟩ other_member rfl
    have same := found member
    rw [found other_member] at same
    rw [Option.some.inj same]
  · intro names name code
    rw [code?_eq_some_iff names, name?_eq_some_iff codes]

end CodeTable

/-- The permissions beside a list of transaction types: the granular ones, and one for each type
whose code is not negative, under the next code. After the last code of all comes the first one. -/
inductive Permission (transactionTypes : Codes) (name : String) (code : Int32) : Prop
  | granular : (name, code) ∈ Registry.granularPermissions → Permission transactionTypes name code
  | whole {type : Int32} : (name, type) ∈ transactionTypes → 0 ≤ type.toInt →
      type.toInt < 2147483647 → code.toInt = type.toInt + 1 → Permission transactionTypes name code
  | wrapped : (name, 2147483647) ∈ transactionTypes → code = -2147483648 →
      Permission transactionTypes name code

def IsGranular (name : String) : Prop :=
  name ∈ Registry.granularPermissions.map Prod.fst

instance (name : String) : Decidable (IsGranular name) :=
  inferInstanceAs (Decidable (name ∈ Registry.granularPermissions.map Prod.fst))

theorem toInt_next {code : Int32} (not_last : code.toInt < 2147483647) :
    (code + 1).toInt = code.toInt + 1 := by
  have first := code.le_toInt
  rw [Int32.toInt_add, Int.bmod_eq_of_le]
  · rfl
  · simp
    omega
  · simp
    omega

theorem next_eq_iff {type code : Int32} :
    type + 1 = code ↔ type.toInt < 2147483647 ∧ code.toInt = type.toInt + 1 ∨
      type = 2147483647 ∧ code = -2147483648 := by
  have last := type.toInt_lt
  by_cases not_last : type.toInt < 2147483647
  · have other : type ≠ 2147483647 := by
      rintro rfl
      exact absurd not_last (by decide)
    rw [← Int32.toInt_inj, toInt_next not_last]
    simp [not_last, other, eq_comm]
  · have same : type.toInt = (2147483647 : Int32).toInt := by
      change type.toInt = 2147483647
      omega
    obtain rfl := Int32.toInt_inj.mp same
    simp [eq_comm]

namespace Registry
variable {transactionTypes : Codes} {name : String} {code : Int32}

def wholePermissions (transactionTypes : Codes) : Codes :=
  (transactionTypes.filter (0 ≤ ·.2)).map fun type => (type.1, type.2 + 1)

theorem permissionEntries_eq (transactionTypes : Codes) :
    permissionEntries transactionTypes =
      wholePermissions transactionTypes ++ granularPermissions := by
  rw [permissionEntries, wholePermissions, ← List.filterMap_eq_map, List.filterMap_filter]
  simp only [decide_eq_true_eq]
  rfl

theorem mem_wholePermissions :
    (name, code) ∈ wholePermissions transactionTypes ↔
      ∃ type, (name, type) ∈ transactionTypes ∧ 0 ≤ type.toInt ∧ type + 1 = code := by
  simp only [wholePermissions, List.mem_map, List.mem_filter, decide_eq_true_eq, Prod.mk.injEq]
  constructor
  · rintro ⟨⟨_, type⟩, ⟨listed, natural⟩, rfl, next⟩
    exact ⟨type, listed, Int32.le_iff_toInt_le.mp natural, next⟩
  · rintro ⟨type, listed, natural, next⟩
    exact ⟨(name, type), ⟨listed, Int32.le_iff_toInt_le.mpr natural⟩, rfl, next⟩

theorem mem_permissionEntries :
    (name, code) ∈ permissionEntries transactionTypes ↔ Permission transactionTypes name code := by
  rw [permissionEntries_eq, List.mem_append, mem_wholePermissions]
  simp only [next_eq_iff]
  constructor
  · rintro (⟨type, listed, natural, ⟨not_last, next⟩ | ⟨rfl, rfl⟩⟩ | granular)
    · exact .whole listed natural not_last next
    · exact .wrapped listed rfl
    · exact .granular granular
  · rintro (granular | ⟨listed, natural, not_last, next⟩ | ⟨listed, rfl⟩)
    · exact .inr granular
    · exact .inl ⟨_, listed, natural, .inl ⟨not_last, next⟩⟩
    · exact .inl ⟨_, listed, by decide, .inr ⟨rfl, rfl⟩⟩

theorem distinctNames_granular : DistinctNames granularPermissions := by decide

theorem distinctNames_wholePermissions (distinct : DistinctNames transactionTypes) :
    DistinctNames (wholePermissions transactionTypes) := by
  rw [DistinctNames, wholePermissions, List.map_map]
  exact distinct.sublist (List.filter_sublist.map Prod.fst)

def ApartFromGranular (transactionTypes : Codes) : Prop :=
  ∀ name type, (name, type) ∈ transactionTypes → 0 ≤ type.toInt → ¬ IsGranular name

theorem distinctNames_permissionEntries (distinct : DistinctNames transactionTypes) :
    DistinctNames (permissionEntries transactionTypes) ↔ ApartFromGranular transactionTypes := by
  rw [permissionEntries_eq, DistinctNames, List.map_append, List.nodup_append]
  constructor
  · rintro ⟨-, -, apart⟩ name type listed natural granular
    have made := mem_wholePermissions.mpr ⟨type, listed, natural, rfl⟩
    exact apart name (List.mem_map_of_mem (f := Prod.fst) made) name granular rfl
  · intro apart
    refine ⟨distinctNames_wholePermissions distinct, distinctNames_granular, ?_⟩
    rintro _ named name granular rfl
    obtain ⟨⟨name, code⟩, made, rfl⟩ := List.mem_map.mp named
    obtain ⟨type, listed, natural, -⟩ := mem_wholePermissions.mp made
    exact apart name type listed natural granular

theorem code?_permissionEntries (distinct : DistinctNames transactionTypes) :
    CodeTable.code? ⟨permissionEntries transactionTypes⟩ name = some code ↔
      Permission transactionTypes name code ∧
        (IsGranular name → (name, code) ∈ granularPermissions) := by
  rw [← mem_permissionEntries, permissionEntries_eq, CodeTable.code?_append, List.mem_append]
  by_cases granular : IsGranular name
  · obtain ⟨⟨_, other⟩, listed, rfl⟩ := List.mem_map.mp granular
    have found := (CodeTable.code?_eq_some_iff distinctNames_granular).mpr listed
    rw [found, Option.some_or, ← found, CodeTable.code?_eq_some_iff distinctNames_granular]
    exact ⟨fun member => ⟨.inr member, fun _ => member⟩, fun h => h.2 granular⟩
  · have unlisted : (name, code) ∉ granularPermissions := fun member =>
      granular (List.mem_map_of_mem (f := Prod.fst) member)
    rw [CodeTable.code?_eq_none granular, Option.none_or,
      CodeTable.code?_eq_some_iff (distinctNames_wholePermissions distinct)]
    simp [unlisted, granular]

end Registry

namespace Document
variable {document : Document} {json : Json}

def Declares (document : Document) (enumeration : Enumeration) (name : String) (code : Int32) :
    Prop :=
  match enumeration with
  | .transactionType => (name, code) ∈ document.transactionTypes
  | .ledgerEntryType => (name, code) ∈ document.ledgerEntryTypes
  | .transactionResult => (name, code) ∈ document.transactionResults
  | .permissionValue => Permission document.transactionTypes name code

def codes (document : Document) : Enumeration → Codes
  | .transactionType => document.transactionTypes
  | .ledgerEntryType => document.ledgerEntryTypes
  | .transactionResult => document.transactionResults
  | .permissionValue => Registry.permissionEntries document.transactionTypes

theorem mem_codes {enumeration : Enumeration} {name : String} {code : Int32} :
    (name, code) ∈ document.codes enumeration ↔ document.Declares enumeration name code := by
  cases enumeration with
  | permissionValue => exact Registry.mem_permissionEntries
  | _ => rfl

theorem distinctNames_codes (read : ofJson? json = some document) {enumeration : Enumeration}
    (own : enumeration ≠ .permissionValue) : DistinctNames (document.codes enumeration) := by
  obtain ⟨values, -, read⟩ := Option.bind_eq_some_iff.mp read
  split at read
  · obtain ⟨types, -, read⟩ := Option.bind_eq_some_iff.mp read
    obtain ⟨fields, -, read⟩ := Option.bind_eq_some_iff.mp read
    obtain ⟨ledgerEntryTypes, entries_read, read⟩ := Option.bind_eq_some_iff.mp read
    obtain ⟨transactionResults, results_read, read⟩ := Option.bind_eq_some_iff.mp read
    obtain ⟨transactionTypes, types_read, read⟩ := Option.bind_eq_some_iff.mp read
    cases read
    cases enumeration with
    | transactionType => exact Json.distinctNames_of_codes? types_read
    | ledgerEntryType => exact Json.distinctNames_of_codes? entries_read
    | transactionResult => exact Json.distinctNames_of_codes? results_read
    | permissionValue => exact absurd rfl own
  · cases read

end Document

namespace Registry

/-- The tables of a registry say what its document says. Each is read in both directions, that of
permissions only if its two sources share no name. -/
structure Enumerates (registry : Registry) (document : Document) : Prop where
  named : ∀ enumeration name code, (registry.table enumeration).name? code = some name ↔
    document.Declares enumeration name code
  coded : ∀ enumeration name code, (registry.table enumeration).code? name = some code ↔
    document.Declares enumeration name code ∧
      (enumeration = .permissionValue → IsGranular name → (name, code) ∈ granularPermissions)
  bidirectional : ∀ enumeration, (registry.table enumeration).Bidirectional ↔
    (enumeration = .permissionValue → ApartFromGranular document.transactionTypes)

theorem table_of_ofDocument {document : Document} {registry : Registry}
    (made : ofDocument document = .ok registry) (enumeration : Enumeration) :
    registry.table enumeration = ⟨document.codes enumeration⟩ ∧
      ((document.codes enumeration).map Prod.snd).Nodup := by
  obtain ⟨fields, -, -, permissions, transactions, ledgerEntries, results, rfl⟩ :=
    ofDocument_eq_ok.mp made
  cases enumeration with
  | transactionType => exact ⟨rfl, transactions⟩
  | ledgerEntryType => exact ⟨rfl, ledgerEntries⟩
  | transactionResult => exact ⟨rfl, results⟩
  | permissionValue => exact ⟨rfl, permissions⟩

theorem enumerates {json : Json} {document : Document} {registry : Registry}
    (read : Document.ofJson? json = some document) (made : ofDocument document = .ok registry) :
    registry.Enumerates document := by
  have tables := table_of_ofDocument made
  have types : DistinctNames document.transactionTypes :=
    Document.distinctNames_codes read
      (show Enumeration.transactionType ≠ .permissionValue from nofun)
  refine ⟨fun enumeration name code => ?_, fun enumeration name code => ?_, fun enumeration => ?_⟩
  · obtain ⟨table, codes⟩ := tables enumeration
    rw [table, CodeTable.name?_eq_some_iff codes, Document.mem_codes]
  · rw [(tables enumeration).1]
    by_cases permission : enumeration = .permissionValue
    · subst permission
      rw [Document.codes, code?_permissionEntries types]
      simp [Document.Declares]
    · rw [CodeTable.code?_eq_some_iff (Document.distinctNames_codes read permission),
        Document.mem_codes]
      simp [permission]
  · obtain ⟨table, codes⟩ := tables enumeration
    rw [table, CodeTable.bidirectional_iff codes]
    by_cases permission : enumeration = .permissionValue
    · subst permission
      simp [Document.codes, distinctNames_permissionEntries types]
    · simp [permission, Document.distinctNames_codes read permission]

theorem exists_document_of_ofJson {json : Json} {registry : Registry}
    (loaded : ofJson json = .ok registry) :
    ∃ document, Document.ofJson? json = some document ∧ ofDocument document = .ok registry := by
  cases read : Document.ofJson? json with
  | none =>
    rw [ofJson, read] at loaded
    cases loaded
  | some document =>
    rw [ofJson_of_typed read] at loaded
    cases made : ofDocument document with
    | error fault =>
      rw [made] at loaded
      cases loaded
    | ok other =>
      rw [made] at loaded
      cases loaded
      exact ⟨document, rfl, made⟩

/-- The tables of a loaded registry say what its document says: every code that they hold has its
name, and every name its code unless it is both a transaction type's and a granular permission's.
-/
theorem loaded_enumerations {json : Json} {registry : Registry}
    (loaded : ofJson json = .ok registry) :
    (∃ document, Document.ofJson? json = some document ∧ registry.Enumerates document) ∧
    ∀ text, Json.parseVerbatim? text = some json → ofText text = .ok registry := by
  obtain ⟨document, read, made⟩ := exists_document_of_ofJson loaded
  refine ⟨⟨document, read, enumerates read made⟩, fun text parsed => ?_⟩
  rw [ofText, parsed]
  exact loaded

def twoTypes : Document :=
  { twoFields with transactionTypes := [("Invalid", -1), ("Payment", 0)] }

theorem loaded_enumerations_twoTypes :
    ∃ registry, ofJson twoTypes.toJson = .ok registry ∧ registry.Enumerates twoTypes ∧
      registry.permissionValues.code? "Payment" = some 1 ∧
      registry.permissionValues.Bidirectional := by
  have typed : Document.ofJson? twoTypes.toJson = some twoTypes := by decide
  obtain ⟨registry, loaded⟩ : ∃ registry, ofJson twoTypes.toJson = .ok registry := ⟨_, rfl⟩
  obtain ⟨document, read, enumerates⟩ := (loaded_enumerations loaded).1
  rw [typed] at read
  cases read
  have payment : Permission twoTypes.transactionTypes "Payment" 1 :=
    .whole (List.mem_cons_of_mem _ List.mem_cons_self) (by decide) (by decide) rfl
  have apart : ApartFromGranular twoTypes.transactionTypes := by
    intro name type listed natural
    simp only [twoTypes, List.mem_cons, List.not_mem_nil, or_false, Prod.mk.injEq] at listed
    rcases listed with ⟨rfl, rfl⟩ | ⟨rfl, rfl⟩
    · exact absurd natural (by decide)
    · decide
  have ungranular : ¬ IsGranular "Payment" := by decide
  exact ⟨registry, loaded, enumerates,
    (enumerates.coded .permissionValue _ _).mpr ⟨payment, fun _ named => absurd named ungranular⟩,
    (enumerates.bidirectional .permissionValue).mpr fun _ => apart⟩

/-- Two transaction types: one with the name of a granular permission, one with the last code. -/
def sharedNames : Document where
  types := [("UInt32", 2)]
  fields := [("PermissionValue", ⟨52, false, true, true, "UInt32"⟩)]
  ledgerEntryTypes := []
  transactionResults := []
  transactionTypes := [("TrustlineAuthorize", 200), ("Last", 2147483647)]

/-- The permission 201 is rendered under a name that stands for another one, and the code behind
the last one is negative. -/
theorem permission_changes_code :
    ∃ registry, ofJson sharedNames.toJson = .ok registry ∧
      registry.permissionValues.name? 201 = some "TrustlineAuthorize" ∧
      registry.permissionValues.code? "TrustlineAuthorize" = some 65537 ∧
      ¬ registry.permissionValues.Bidirectional ∧
      registry.permissionValues.code? "Last" = some (-2147483648) ∧
      registry.decodeBytes [0x20, 0x34, 0, 0, 0, 201] =
        .ok (.object [("PermissionValue", .string "TrustlineAuthorize")]) ∧
      registry.encode (.object [("PermissionValue", .string "TrustlineAuthorize")]) =
        .ok [0x20, 0x34, 0, 1, 0, 1] := by
  refine ⟨_, rfl, by decide, by decide, fun both => ?_, by decide, rfl, by decide +kernel⟩
  have found := (both "TrustlineAuthorize" 201).mpr (by decide)
  exact absurd found (by decide)

end Registry
end LedgerWire
