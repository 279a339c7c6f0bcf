import Mathlib.Data.List.GetD
import Mathlib.Data.List.TakeWhile
import Mathlib.Data.Nat.Digits.Lemmas
import LedgerWire.Base58

namespace LedgerWire.Base58

theorem digits_eq_natDigits {base : Nat} (h : 1 < base) (n : Nat) :
    digits base n = Nat.digits base n := by
  induction n using Nat.strong_induction_on with
  | _ n ih =>
    by_cases positive : 0 < n
    · rw [digits, dif_pos ⟨h, positive⟩, ih _ (Nat.div_lt_self positive h),
        ← Nat.digits_def' h positive]
    · obtain rfl : n = 0 := by omega
      rw [digits, dif_neg (by omega), Nat.digits_zero]

theorem ofDigits_eq_natOfDigits (base : Nat) (ds : List Nat) :
    ofDigits base ds = Nat.ofDigits base ds.reverse := by
  rw [ofDigits, Nat.ofDigits_eq_foldr, List.foldr_reverse]
  congr
  funext n d
  simp [Nat.mul_comm, Nat.add_comm]

def NoLeadingZero (ds : List Nat) : Prop := ds.head? ≠ some 0

theorem noLeadingZero_dropWhile (ds : List Nat) : NoLeadingZero (ds.dropWhile (· == 0)) := by
  intro zero
  have kept := List.head?_dropWhile_not (· == 0) ds
  rw [zero] at kept
  simp at kept

theorem noLeadingZero_digits {base : Nat} (h : 1 < base) (n : Nat) :
    NoLeadingZero (digits base n).reverse := by
  rw [digits_eq_natDigits h, NoLeadingZero, List.head?_reverse]
  intro last
  have positive : n ≠ 0 := by
    rintro rfl
    simp at last
  rw [List.getLast?_eq_some_getLast (Nat.digits_ne_nil_iff_ne_zero.mpr positive),
    Option.some.injEq] at last
  exact Nat.getLast_digit_ne_zero base positive last

theorem digits_ofDigits {base : Nat} (h : 1 < base) {ds : List Nat} (small : ∀ d ∈ ds, d < base)
    (lead : NoLeadingZero ds) : (digits base (ofDigits base ds)).reverse = ds := by
  rw [digits_eq_natDigits h, ofDigits_eq_natOfDigits, Nat.digits_ofDigits base h,
    List.reverse_reverse]
  · intro d member
    exact small d (List.mem_reverse.mp member)
  · intro nonempty zero
    rw [List.getLast_reverse] at zero
    exact lead (by rw [List.head?_eq_some_head (by simpa using nonempty), zero])

theorem ofDigits_digits {base : Nat} (h : 1 < base) (n : Nat) :
    ofDigits base (digits base n).reverse = n := by
  rw [ofDigits_eq_natOfDigits, List.reverse_reverse, digits_eq_natDigits h, Nat.ofDigits_digits]

theorem takeWhile_zeros {ds : List Nat} (lead : NoLeadingZero ds) :
    ds.takeWhile (· == 0) = [] ∧ ds.dropWhile (· == 0) = ds := by
  cases ds with
  | nil => exact ⟨rfl, rfl⟩
  | cons d rest =>
    have nonzero : d ≠ 0 := by
      rintro rfl
      exact lead rfl
    simp [nonzero]

theorem rebase_append (source target : Nat) {zeros ds : List Nat} (all_zero : ∀ d ∈ zeros, d = 0)
    (lead : NoLeadingZero ds) :
    rebase source target (zeros ++ ds) =
      zeros ++ (digits target (ofDigits source ds)).reverse := by
  have zero : ∀ d ∈ zeros, (d == 0) = true := fun d member => by simp [all_zero d member]
  obtain ⟨taken, dropped⟩ := takeWhile_zeros lead
  rw [rebase, List.takeWhile_append_of_pos zero, List.dropWhile_append_of_pos zero, taken, dropped,
    List.append_nil]

theorem exists_zeros_append (ds : List Nat) :
    ∃ zeros rest, ds = zeros ++ rest ∧ (∀ d ∈ zeros, d = 0) ∧ NoLeadingZero rest := by
  refine ⟨ds.takeWhile (· == 0), ds.dropWhile (· == 0), List.takeWhile_append_dropWhile.symm,
    fun d member => ?_, noLeadingZero_dropWhile ds⟩
  simpa using List.mem_takeWhile_imp member

theorem rebase_rebase {source target : Nat} (hs : 1 < source) (ht : 1 < target) {ds : List Nat}
    (small : ∀ d ∈ ds, d < source) : rebase target source (rebase source target ds) = ds := by
  obtain ⟨zeros, rest, rfl, all_zero, lead⟩ := exists_zeros_append ds
  have rest_small : ∀ d ∈ rest, d < source := fun d member =>
    small d (List.mem_append_right zeros member)
  rw [rebase_append _ _ all_zero lead, rebase_append _ _ all_zero (noLeadingZero_digits ht _),
    ofDigits_digits ht, digits_ofDigits hs rest_small lead]

theorem rebase_lt (source : Nat) {target : Nat} (ht : 1 < target) (ds : List Nat) :
    ∀ d ∈ rebase source target ds, d < target := by
  obtain ⟨zeros, rest, rfl, all_zero, lead⟩ := exists_zeros_append ds
  intro d member
  rw [rebase_append _ _ all_zero lead, List.mem_append, List.mem_reverse,
    digits_eq_natDigits ht] at member
  rcases member with zero | digit
  · rw [all_zero d zero]
    omega
  · exact Nat.digits_lt_base ht digit

theorem digitOf?_letter {d : Nat} (h : d < 58) : digitOf? (letter d) = some d := by
  have all : ∀ d : Fin 58, digitOf? (letter d.val) = some d.val := by decide +kernel
  exact all ⟨d, h⟩

theorem letter_of_digitOf? {c : Char} {d : Nat} (h : digitOf? c = some d) :
    d < 58 ∧ letter d = c := by
  obtain ⟨bound, found, -⟩ := List.idxOf?_eq_some_iff.mp h
  refine ⟨bound, ?_⟩
  rw [letter, List.getD_eq_getElem _ _ bound]
  exact found

theorem readDigits_letters {ds : List Nat} (small : ∀ d ∈ ds, d < 58) (position : Nat) :
    readDigits position (ds.map letter) = .ok ds := by
  induction ds generalizing position with
  | nil => rfl
  | cons d rest ih =>
    rw [List.map_cons, readDigits, digitOf?_letter (small d List.mem_cons_self)]
    simp only [ih (fun e member => small e (List.mem_cons_of_mem d member))]

theorem letters_of_readDigits {chars : List Char} {position : Nat} {ds : List Nat}
    (h : readDigits position chars = .ok ds) : (∀ d ∈ ds, d < 58) ∧ ds.map letter = chars := by
  induction chars generalizing position ds with
  | nil =>
    cases h
    exact ⟨by simp, rfl⟩
  | cons c rest ih =>
    rw [readDigits] at h
    split at h
    · rename_i d found
      split at h
      · rename_i tail read
        cases h
        obtain ⟨bound, spelled⟩ := letter_of_digitOf? found
        obtain ⟨bounds, rest_spelled⟩ := ih read
        refine ⟨fun e member => ?_, by rw [List.map_cons, spelled, rest_spelled]⟩
        rcases List.mem_cons.mp member with rfl | member
        · exact bound
        · exact bounds e member
      · cases h
    · split at h <;> cases h

theorem byte_digits_small (bytes : Bytes) : ∀ d ∈ bytes.map UInt8.toNat, d < 256 := by
  intro d member
  obtain ⟨b, -, rfl⟩ := List.mem_map.mp member
  exact b.toNat_lt

theorem decode_encode (bytes : Bytes) : decode (encode bytes) = .ok bytes := by
  have small := byte_digits_small bytes
  rw [decode, encode, String.toList_ofList,
    readDigits_letters (rebase_lt 256 (by decide) _)]
  have back : rebase 58 256 (rebase 256 58 (bytes.map UInt8.toNat)) = bytes.map UInt8.toNat :=
    rebase_rebase (by decide) (by decide) small
  simp only [back, List.map_map]
  congr
  exact List.map_id'' (fun b => UInt8.ofNat_toNat) bytes

theorem encode_decode {text : String} {bytes : Bytes} (h : decode text = .ok bytes) :
    encode bytes = text := by
  rw [decode] at h
  split at h
  · rename_i ds read
    cases h
    obtain ⟨small, spelled⟩ := letters_of_readDigits read
    have bytes_digits :
        ((rebase 58 256 ds).map UInt8.ofNat).map UInt8.toNat = rebase 58 256 ds := by
      rw [List.map_map]
      refine (List.map_congr_left fun d member => ?_).trans (List.map_id _)
      have bound : d < 256 := rebase_lt 58 (by decide) ds d member
      simp only [Function.comp_apply, UInt8.toNat_ofNat', id]
      omega
    rw [encode, bytes_digits, rebase_rebase (by decide) (by decide) small, spelled,
      String.ofList_toList]
  · cases h

theorem ofDigits_bytes (bytes : Bytes) : ofDigits 256 (bytes.map UInt8.toNat) = beValue bytes := by
  rw [ofDigits, beValue, List.foldl_map]

theorem ofDigits_zeros_append {base : Nat} {zeros : List Nat} (all_zero : ∀ d ∈ zeros, d = 0)
    (ds : List Nat) : ofDigits base (zeros ++ ds) = ofDigits base ds := by
  have nothing : zeros.foldl (fun n d => n * base + d) 0 = 0 := by
    rw [List.eq_replicate_iff.mpr ⟨rfl, all_zero⟩]
    induction zeros.length with
    | zero => rfl
    | succ n ih => rw [List.replicate_succ, List.foldl_cons, Nat.zero_mul, Nat.zero_add, ih]
  rw [ofDigits, List.foldl_append, nothing, ofDigits]

theorem ofDigits_lt {base : Nat} (h : 1 < base) {ds : List Nat} (small : ∀ d ∈ ds, d < base) :
    ofDigits base ds < base ^ ds.length := by
  rw [ofDigits_eq_natOfDigits, ← List.length_reverse]
  exact Nat.ofDigits_lt_base_pow_length h fun d member => small d (List.mem_reverse.mp member)

theorem ofDigits_rebase {source target : Nat} (ht : 1 < target) (ds : List Nat) :
    ofDigits target (rebase source target ds) = ofDigits source ds := by
  obtain ⟨zeros, rest, rfl, all_zero, lead⟩ := exists_zeros_append ds
  rw [rebase_append _ _ all_zero lead, ofDigits_zeros_append all_zero, ofDigits_digits ht,
    ofDigits_zeros_append all_zero]

theorem length_encode (bytes : Bytes) :
    (encode bytes).length = (rebase 256 58 (bytes.map UInt8.toNat)).length := by
  rw [encode, String.length_ofList, List.length_map]

theorem lt_length_encode {bytes : Bytes} {k : Nat} (h : 58 ^ k ≤ beValue bytes) :
    k < (encode bytes).length := by
  have value : ofDigits 58 (rebase 256 58 (bytes.map UInt8.toNat)) = beValue bytes := by
    rw [ofDigits_rebase (by decide), ofDigits_bytes]
  have letters : ∀ d ∈ rebase 256 58 (bytes.map UInt8.toNat), d < 58 :=
    rebase_lt 256 (by decide) _
  have bound := ofDigits_lt (by decide) letters
  rw [value, ← length_encode] at bound
  exact (Nat.pow_lt_pow_iff_right (by decide)).mp (Nat.lt_of_le_of_lt h bound)

theorem length_encode_le {bytes : Bytes} {k : Nat} (h : 256 ^ bytes.length ≤ 58 ^ k) :
    (encode bytes).length ≤ k := by
  have small := byte_digits_small bytes
  have whole : (bytes.map UInt8.toNat).length = bytes.length := List.length_map _
  rw [length_encode]
  generalize bytes.map UInt8.toNat = ds at small whole ⊢
  obtain ⟨zeros, rest, rfl, all_zero, lead⟩ := exists_zeros_append ds
  rw [List.length_append] at whole
  have value : ofDigits 256 rest < 256 ^ rest.length :=
    ofDigits_lt (by decide) fun d member => small d (List.mem_append_right zeros member)
  have total : 256 ^ rest.length * 58 ^ zeros.length ≤ 58 ^ k := by
    calc 256 ^ rest.length * 58 ^ zeros.length
        ≤ 256 ^ rest.length * 256 ^ zeros.length :=
          Nat.mul_le_mul_left _ (Nat.pow_le_pow_left (by decide) _)
      _ = 256 ^ bytes.length := by rw [← Nat.pow_add, Nat.add_comm, whole]
      _ ≤ 58 ^ k := h
  have zeros_le : zeros.length ≤ k := by
    apply (Nat.pow_le_pow_iff_right (a := 58) (by decide)).mp
    exact Nat.le_trans (Nat.le_mul_of_pos_left _ (Nat.pow_pos (by decide))) total
  have room : ofDigits 256 rest < 58 ^ (k - zeros.length) := by
    apply Nat.lt_of_mul_lt_mul_right (a := 58 ^ zeros.length)
    rw [← Nat.pow_add, Nat.sub_add_cancel zeros_le]
    exact Nat.lt_of_lt_of_le
      (Nat.mul_lt_mul_of_pos_right value (Nat.pow_pos (by decide))) total
  have digits_le := (Nat.digits_length_le_iff (b := 58) (by decide) _).mpr room
  rw [rebase_append _ _ all_zero lead, List.length_append, List.length_reverse,
    digits_eq_natDigits (by decide)]
  omega

theorem length_encode_of_lead {b : UInt8} {rest : Bytes} {k : Nat} (lead : b ≠ 0)
    (h : beValue (b :: rest) < 58 ^ k) : (encode (b :: rest)).length ≤ k := by
  have none_zero : NoLeadingZero ((b :: rest).map UInt8.toNat) := by
    intro zero
    rw [List.map_cons, List.head?_cons, Option.some.injEq] at zero
    exact lead (UInt8.toNat_inj.mp zero)
  have number := rebase_append 256 58 (List.forall_mem_nil _) none_zero
  rw [List.nil_append, List.nil_append, ofDigits_bytes] at number
  rw [length_encode, number, List.length_reverse, digits_eq_natDigits (by decide)]
  exact (Nat.digits_length_le_iff (by decide) _).mpr h

end LedgerWire.Base58
