import Mathlib.Data.List.Nodup
import LedgerWire.Proofs.Outcome
import LedgerWire.Registry.Bundled

/-!
What the loading of a document establishes: no two fields share a name or a header, and every
serialized field has a header. A table of fields with these properties is loaded as it stands, and
the bundled definitions are one.
-/

namespace LedgerWire.Registry

def describedField (typeCode : Int32) (name : String) (info : FieldInfo) : Field :=
  { info with name, typeCode, typeName := info.type }

structure Admits (before : List Field) (field : Field) : Prop where
  coded : field.serialized = true → field.header?.isSome = true
  header : field.serialized = true → ∀ other ∈ before, other.header? ≠ field.header?
  name : ∀ other ∈ before, other.name ≠ field.name

theorem find?_header_eq_none {before : List Field} {field : Field} :
    before.find? (·.header? == field.header?) = none ↔
      ∀ other ∈ before, other.header? ≠ field.header? := by
  simp [List.find?_eq_none]

theorem any_name_eq_false {before : List Field} {name : String} :
    ¬ before.any (·.name == name) = true ↔ ∀ other ∈ before, other.name ≠ name := by
  simp

theorem addField_eq_ok {types : Codes} {before after : List Field} {name : String}
    {info : FieldInfo} :
    addField types before name info = .ok after ↔
      ∃ typeCode, types.lookup info.type = some typeCode ∧
        Admits before (describedField typeCode name info) ∧
        after = before ++ [describedField typeCode name info] := by
  cases found : types.lookup info.type with
  | none => simp [addField, found]
  | some typeCode =>
    suffices same : addField types before name info = .ok after ↔
        Admits before (describedField typeCode name info) ∧
          after = before ++ [describedField typeCode name info] by
      simp [same]
    simp only [addField, found]
    change (if (describedField typeCode name info).serialized = true then _ else _) = _ ↔ _
    constructor
    · intro h
      split at h
      · rename_i on_wire
        split at h
        · cases h
        · rename_i coded
          split at h
          · cases h
          · rename_i unshared
            split at h
            · cases h
            · rename_i unnamed
              refine ⟨⟨fun _ => ?_, fun _ => ?_, any_name_eq_false.mp unnamed⟩,
                (Except.ok.inj h).symm⟩
              · simpa [Option.isSome_iff_ne_none, describedField] using coded
              · exact find?_header_eq_none.mp (Option.eq_none_iff_forall_ne_some.mpr unshared)
      · rename_i off_wire
        split at h
        · cases h
        · rename_i unnamed
          exact ⟨⟨fun on_wire => absurd on_wire off_wire, fun on_wire => absurd on_wire off_wire,
            any_name_eq_false.mp unnamed⟩, (Except.ok.inj h).symm⟩
    · rintro ⟨admits, rfl⟩
      have unnamed : ¬ before.any (·.name == name) = true := any_name_eq_false.mpr admits.name
      split
      · rename_i on_wire
        have coded := admits.coded on_wire
        have unshared := find?_header_eq_none.mpr (admits.header on_wire)
        rw [if_neg (by simpa [Option.isSome_iff_ne_none, describedField] using coded)]
        simp only [describedField] at unshared
        simp only [unshared]
        rfl
      · rfl

theorem find?_key_eq_some_iff {α κ : Type} [BEq κ] [LawfulBEq κ] {key : α → κ} {entries : List α}
    (distinct : (entries.map key).Nodup) {entry : α} {k : κ} :
    entries.find? (key · == k) = some entry ↔ entry ∈ entries ∧ key entry = k := by
  constructor
  · intro found
    exact ⟨List.mem_of_find?_eq_some found, by simpa using List.find?_some found⟩
  · rintro ⟨member, rfl⟩
    cases found : entries.find? (key · == key entry) with
    | none =>
      have absent := List.find?_eq_none.mp found entry member
      simp at absent
    | some other =>
      have same : key other = key entry := by simpa using List.find?_some found
      rw [List.inj_on_of_nodup_map distinct (List.mem_of_find?_eq_some found) member same]

/-- No two fields share a name or a header, and what is on the wire has a header. -/
structure Coherent (fields : List Field) : Prop where
  coded : ∀ field ∈ fields, field.serialized = true → field.header?.isSome = true
  headers : fields.Pairwise fun a b => b.serialized = true → a.header? ≠ b.header?
  names : (fields.map Field.name).Nodup

theorem coherent_append_singleton {before : List Field} {field : Field} :
    Coherent (before ++ [field]) ↔ Coherent before ∧ Admits before field := by
  constructor
  · rintro ⟨coded, headers, names⟩
    rw [List.pairwise_append] at headers
    rw [List.map_append, List.nodup_append] at names
    refine ⟨⟨fun other member => coded other (List.mem_append_left _ member), headers.1, names.1⟩,
      coded field (by simp), fun on_wire other member => ?_, fun other member => ?_⟩
    · exact headers.2.2 other member field (by simp) on_wire
    · exact names.2.2 other.name (List.mem_map_of_mem member) field.name (by simp)
  · rintro ⟨⟨coded, headers, names⟩, admits⟩
    refine ⟨fun other member => ?_, ?_, ?_⟩
    · rcases List.mem_append.mp member with member | last
      · exact coded other member
      · rw [List.mem_singleton.mp last]
        exact admits.coded
    · refine List.pairwise_append.mpr ⟨headers, List.pairwise_singleton _ _, ?_⟩
      intro other member last is_last on_wire
      rw [List.mem_singleton.mp is_last] at on_wire ⊢
      exact admits.header on_wire other member
    · rw [List.map_append]
      refine List.nodup_append.mpr ⟨names, by simp, ?_⟩
      intro name named last is_last
      obtain ⟨other, member, rfl⟩ := List.mem_map.mp named
      rw [List.map_cons, List.map_nil, List.mem_singleton] at is_last
      rw [is_last]
      exact admits.name other member

theorem Coherent.of_append {front back : List Field} (coherent : Coherent (front ++ back)) :
    Coherent front := by
  obtain ⟨coded, headers, names⟩ := coherent
  rw [List.map_append] at names
  exact ⟨fun field member => coded field (List.mem_append_left _ member),
    (List.pairwise_append.mp headers).1, (List.nodup_append.mp names).1⟩

def entryField? (types : Codes) (entry : String × FieldInfo) : Option Field :=
  (types.lookup entry.2.type).map fun typeCode => describedField typeCode entry.1 entry.2

theorem foldlM_addField_eq_ok {types : Codes} {entries : List (String × FieldInfo)}
    {before after : List Field} (coherent : Coherent before) :
    entries.foldlM (fun before (name, info) => addField types before name info) before =
        .ok after ↔
      ∃ fields, entries.mapM (entryField? types) = some fields ∧ Coherent (before ++ fields) ∧
        after = before ++ fields := by
  induction entries generalizing before with
  | nil =>
    rw [List.foldlM_nil, List.mapM_nil]
    constructor
    · intro h
      cases h
      exact ⟨[], rfl, by simpa using coherent, by simp⟩
    · rintro ⟨fields, described, -, rfl⟩
      cases described
      rw [List.append_nil]
      rfl
  | cons entry entries ih =>
    obtain ⟨name, info⟩ := entry
    rw [List.foldlM_cons, bind_eq_ok]
    simp only [addField_eq_ok, List.mapM_cons, Option.bind_eq_bind, Option.bind_eq_some_iff]
    constructor
    · rintro ⟨_, ⟨typeCode, declared, admits, rfl⟩, rest⟩
      have next := coherent_append_singleton.mpr ⟨coherent, admits⟩
      obtain ⟨fields, described, whole, rfl⟩ := (ih next).mp rest
      refine ⟨describedField typeCode name info :: fields, ?_, by simpa using whole, by simp⟩
      exact ⟨_, Option.map_eq_some_iff.mpr ⟨typeCode, declared, rfl⟩, fields, described, rfl⟩
    · rintro ⟨fields, ⟨field, made, rest, described, made_all⟩, whole, rfl⟩
      obtain ⟨typeCode, declared, rfl⟩ := Option.map_eq_some_iff.mp made
      cases made_all
      rw [← List.singleton_append, ← List.append_assoc] at whole
      have next := whole.of_append
      refine ⟨_, ⟨typeCode, declared, (coherent_append_singleton.mp next).2, rfl⟩, ?_⟩
      exact (ih next).mpr ⟨rest, described, whole, by simp⟩

theorem coherent_nil : Coherent [] := ⟨by simp, List.Pairwise.nil, List.nodup_nil⟩

theorem codeTable_eq_ok {enumeration : Enumeration} {entries : Codes} {table : CodeTable} :
    codeTable enumeration entries = .ok table ↔
      (entries.map Prod.snd).Nodup ∧ table = ⟨entries⟩ := by
  unfold codeTable CodeTable.ofEntries?
  by_cases distinct : (entries.map Prod.snd).Nodup
  · simp only [if_pos distinct]
    exact ⟨fun h => ⟨distinct, (Except.ok.inj h).symm⟩, fun h => by rw [h.2]⟩
  · simp only [if_neg distinct]
    exact ⟨nofun, fun h => absurd h.1 distinct⟩

/-- A document is loaded exactly when its types are declared, its fields are coherent, and no table
has a code twice; the registry is then made of its tables. -/
theorem ofDocument_eq_ok {document : Document} {registry : Registry} :
    ofDocument document = .ok registry ↔
      ∃ fields, document.fields.mapM (entryField? document.types) = some fields ∧
        Coherent fields ∧
        ((permissionEntries document.transactionTypes).map Prod.snd).Nodup ∧
        (document.transactionTypes.map Prod.snd).Nodup ∧
        (document.ledgerEntryTypes.map Prod.snd).Nodup ∧
        (document.transactionResults.map Prod.snd).Nodup ∧
        registry =
          { types := document.types
            fields
            transactionTypes := ⟨document.transactionTypes⟩
            ledgerEntryTypes := ⟨document.ledgerEntryTypes⟩
            transactionResults := ⟨document.transactionResults⟩
            permissionValues := ⟨permissionEntries document.transactionTypes⟩ } := by
  unfold ofDocument
  simp only [bind_eq_ok, foldlM_addField_eq_ok coherent_nil, codeTable_eq_ok, List.nil_append]
  constructor
  · rintro ⟨loaded, ⟨_, described, coherent, rfl⟩, _, ⟨permissions, rfl⟩, _, ⟨transactions, rfl⟩,
      _, ⟨ledgerEntries, rfl⟩, _, ⟨results, rfl⟩, made⟩
    exact ⟨loaded, described, coherent, permissions, transactions, ledgerEntries, results,
      (Except.ok.inj made).symm⟩
  · rintro ⟨fields, described, coherent, permissions, transactions, ledgerEntries, results, rfl⟩
    exact ⟨_, ⟨fields, described, coherent, rfl⟩, _, ⟨permissions, rfl⟩, _, ⟨transactions, rfl⟩,
      _, ⟨ledgerEntries, rfl⟩, _, ⟨results, rfl⟩, rfl⟩

def allDifferent : (marked : Nat) → List Nat → Bool
  | _, [] => true
  | marked, n :: rest => !marked.testBit n && allDifferent (marked ||| 1 <<< n) rest

theorem nodup_of_allDifferent {marked : Nat} {ns : List Nat}
    (h : allDifferent marked ns = true) :
    ns.Nodup ∧ ∀ n ∈ ns, marked.testBit n = false := by
  induction ns generalizing marked with
  | nil => exact ⟨List.nodup_nil, by simp⟩
  | cons n rest ih =>
    simp only [allDifferent, Bool.and_eq_true, Bool.not_eq_true'] at h
    obtain ⟨distinct, unmarked⟩ := ih h.2
    -- Later numbers are checked against the marks with `n` among them.
    have apart : ∀ m ∈ rest, marked.testBit m = false ∧ n ≠ m := by
      intro m member
      have bit := unmarked m member
      rw [Nat.testBit_or, Nat.one_shiftLeft, Nat.testBit_two_pow, Bool.or_eq_false_iff] at bit
      exact ⟨bit.1, of_decide_eq_false bit.2⟩
    refine ⟨List.nodup_cons.mpr ⟨fun member => (apart n member).2 rfl, distinct⟩, ?_⟩
    intro m member
    rcases List.mem_cons.mp member with rfl | member
    · exact h.1
    · exact (apart m member).1

namespace Bundled

def described : List Field :=
  fields.filterMap (entryField? types)

theorem mapM_entryField? : fields.mapM (entryField? types) = some described := by
  decide +kernel

/-- A number for a text. Comparing many texts with one another is slow, marking numbers is not. -/
def spelled (text : String) : Nat :=
  text.toByteArray.data.toList.foldl (fun n b => n * 256 + b.toNat) 1 % 50053

theorem coherent_described : Coherent described := by
  obtain ⟨coded, names, numbers⟩ :
      (∀ field ∈ described, field.serialized = true → field.header?.isSome = true) ∧
      allDifferent 0 ((described.map Field.name).map spelled) = true ∧
      allDifferent 0 ((described.filter Field.serialized).map fun field =>
        (field.header?.map FieldHeader.ordinal).getD 0) = true := by
    decide +kernel
  refine ⟨coded, ?_, List.Nodup.of_map spelled (nodup_of_allDifferent names).1⟩
  have distinct := (nodup_of_allDifferent numbers).1
  rw [List.Nodup, List.pairwise_map, List.pairwise_filter] at distinct
  refine distinct.imp_of_mem fun {a b} _ b_mem apart on_wire same => ?_
  by_cases also : a.serialized = true
  · exact apart also on_wire (by rw [same])
  · have header := coded b b_mem on_wire
    rw [← same, Field.header?, if_neg also] at header
    cases header

def registry : Registry :=
  { types
    fields := described
    transactionTypes := ⟨transactionTypes⟩
    ledgerEntryTypes := ⟨ledgerEntryTypes⟩
    transactionResults := ⟨transactionResults⟩
    permissionValues := ⟨permissionEntries transactionTypes⟩ }

theorem nodup_codes (enumeration : Enumeration) :
    ((registry.table enumeration).entries.map Prod.snd).Nodup := by
  have all : ∀ enumeration ∈ Enumeration.all,
      ((registry.table enumeration).entries.map Prod.snd).Nodup := by
    decide +kernel
  exact all enumeration (by cases enumeration <;> decide)

theorem ofDocument_document : ofDocument document = .ok registry :=
  ofDocument_eq_ok.mpr ⟨described, mapM_entryField?, coherent_described,
    nodup_codes .permissionValue, nodup_codes .transactionType, nodup_codes .ledgerEntryType,
    nodup_codes .transactionResult, rfl⟩

end Bundled

theorem bundled_eq : bundled = Bundled.registry := by
  rw [bundled, Bundled.ofDocument_document]
  rfl

end LedgerWire.Registry
