import Mathlib.Data.List.Forall2
import LedgerWire.Wire.Cursor

namespace LedgerWire

section Except
variable {ε α β : Type}

theorem bind_eq_ok {x : Except ε α} {next : α → Except ε β} {b : β} :
    (x >>= next) = .ok b ↔ ∃ a, x = .ok a ∧ next a = .ok b := by
  cases x with
  | error e => exact ⟨nofun, nofun⟩
  | ok a => exact ⟨fun h => ⟨a, rfl, h⟩, fun ⟨_, h, result⟩ => by cases h; exact result⟩

theorem bind_pure_eq_error {x : Except ε α} {f : α → β} {e : ε} :
    (x >>= fun a => pure (f a)) = .error e ↔ x = .error e := by
  cases x with
  | error fault => exact ⟨fun h => congrArg _ (Except.error.inj h), fun h => by cases h; rfl⟩
  | ok a => exact ⟨nofun, nofun⟩

theorem map_eq_ok {x : Except ε α} {f : α → β} {b : β} :
    x.map f = .ok b ↔ ∃ a, x = .ok a ∧ f a = b := by
  cases x with
  | error e => exact ⟨nofun, nofun⟩
  | ok a =>
    constructor
    · intro h
      exact ⟨a, rfl, Except.ok.inj h⟩
    · rintro ⟨_, h, rfl⟩
      cases h
      rfl

theorem refuse_eq_ok {c : Prop} [Decidable c] {e : ε} {next : PUnit → Except ε β} {b : β} :
    (if c then (.error e >>= next) else next ⟨⟩) = .ok b ↔ ¬ c ∧ next ⟨⟩ = .ok b := by
  by_cases h : c
  · rw [if_pos h]
    exact ⟨nofun, fun both => absurd h both.1⟩
  · rw [if_neg h]
    exact ⟨fun made => ⟨h, made⟩, And.right⟩

theorem mapM_eq_ok {f : α → Except ε β} {as : List α} {bs : List β} :
    as.mapM f = .ok bs ↔ List.Forall₂ (fun a b => f a = .ok b) as bs := by
  induction as generalizing bs with
  | nil =>
    rw [List.mapM_nil, List.forall₂_nil_left_iff]
    exact ⟨fun h => (Except.ok.inj h).symm, fun h => by rw [h]; rfl⟩
  | cons a as ih =>
    rw [List.mapM_cons, bind_eq_ok, List.forall₂_cons_left_iff]
    constructor
    · rintro ⟨b, head, tail⟩
      obtain ⟨rest, read, result⟩ := bind_eq_ok.mp tail
      exact ⟨b, rest, head, ih.mp read, (Except.ok.inj result).symm⟩
    · rintro ⟨b, rest, head, tail, rfl⟩
      exact ⟨b, head, bind_eq_ok.mpr ⟨rest, ih.mpr tail, rfl⟩⟩

theorem mapM_map_ok {f : β → Except ε α} {g : α → β} {as : List α}
    (h : ∀ a ∈ as, f (g a) = .ok a) : (as.map g).mapM f = .ok as := by
  rw [mapM_eq_ok, List.forall₂_map_left_iff, List.forall₂_same]
  exact h

theorem mapM_attach_eq_ok {as : List α} {f : {a // a ∈ as} → Except ε β} {bs : List β}
    {R : α → β → Prop} (h : ∀ a b, f a = .ok b ↔ R a.val b) :
    as.attach.mapM f = .ok bs ↔ List.Forall₂ R as bs := by
  simp only [mapM_eq_ok, h]
  rw [← List.forall₂_map_left_iff (f := Subtype.val) (R := R), List.attach_map_subtype_val]

theorem mapM_eq_error {f : α → Except ε β} {as : List α} {e : ε} :
    as.mapM f = .error e ↔ ∃ front a back, as = front ++ a :: back ∧
      (∀ earlier ∈ front, ∃ b, f earlier = .ok b) ∧ f a = .error e := by
  induction as with
  | nil => exact ⟨nofun, fun ⟨_, _, _, whole, _⟩ => by simp at whole⟩
  | cons first as ih =>
    rw [List.mapM_cons]
    cases head : f first with
    | error fault =>
      constructor
      · intro h
        cases h
        exact ⟨[], first, as, rfl, nofun, head⟩
      · rintro ⟨front, a, back, whole, earlier, failed⟩
        cases front with
        | nil =>
          cases whole
          rw [head] at failed
          cases failed
          rfl
        | cons other front =>
          cases whole
          obtain ⟨b, made⟩ := earlier first List.mem_cons_self
          rw [head] at made
          cases made
    | ok b =>
      have rest : (Except.ok b >>= fun b => as.mapM f >>= fun bs => pure (b :: bs)) = .error e ↔
          as.mapM f = .error e := bind_pure_eq_error
      rw [rest, ih]
      constructor
      · rintro ⟨front, a, back, rfl, earlier, failed⟩
        exact ⟨first :: front, a, back, rfl, List.forall_mem_cons.mpr ⟨⟨b, head⟩, earlier⟩, failed⟩
      · rintro ⟨front, a, back, whole, earlier, failed⟩
        cases front with
        | nil =>
          cases whole
          rw [head] at failed
          cases failed
        | cons other front =>
          cases whole
          exact ⟨front, a, back, rfl, (List.forall_mem_cons.mp earlier).2, failed⟩

theorem exists_error_of_mapM {f : α → Except ε β} {as : List α} {e : ε}
    (h : as.mapM f = .error e) : ∃ a ∈ as, f a = .error e := by
  obtain ⟨front, a, back, rfl, -, failed⟩ := mapM_eq_error.mp h
  exact ⟨a, by simp, failed⟩

end Except

section Matched
variable {α β : Type} {R : α → β → Prop} {as : List α} {bs : List β}

theorem exists_left_of_mem (h : List.Forall₂ R as bs) {b : β} (member : b ∈ bs) :
    ∃ a ∈ as, R a b := by
  induction h with
  | nil => cases member
  | cons head _ ih =>
    rcases List.mem_cons.mp member with rfl | member
    · exact ⟨_, List.mem_cons_self, head⟩
    · obtain ⟨a, mem, related⟩ := ih member
      exact ⟨a, List.mem_cons_of_mem _ mem, related⟩

theorem exists_right_of_mem (h : List.Forall₂ R as bs) {a : α} (member : a ∈ as) :
    ∃ b ∈ bs, R a b := by
  induction h with
  | nil => cases member
  | cons head _ ih =>
    rcases List.mem_cons.mp member with rfl | member
    · exact ⟨_, List.mem_cons_self, head⟩
    · obtain ⟨b, mem, related⟩ := ih member
      exact ⟨b, List.mem_cons_of_mem _ mem, related⟩

theorem forall₂_replace {front back : List α} {a a' : α}
    (h : List.Forall₂ R (front ++ a :: back) bs) (replace : ∀ b, R a b → R a' b) :
    List.Forall₂ R (front ++ a' :: back) bs := by
  induction front generalizing bs with
  | nil =>
    obtain ⟨b, rest, head, tail, rfl⟩ := List.forall₂_cons_left_iff.mp h
    exact .cons (replace b head) tail
  | cons first front ih =>
    obtain ⟨b, rest, head, tail, rfl⟩ := List.forall₂_cons_left_iff.mp h
    exact .cons head (ih tail)

theorem exists_forall₂ (h : ∀ a ∈ as, ∃ b, R a b) : ∃ bs, List.Forall₂ R as bs := by
  induction as with
  | nil => exact ⟨[], .nil⟩
  | cons a as ih =>
    obtain ⟨b, head⟩ := h a List.mem_cons_self
    obtain ⟨bs, tail⟩ := ih fun other member => h other (List.mem_cons_of_mem _ member)
    exact ⟨b :: bs, .cons head tail⟩

theorem exists_forall₂_map {γ : Type} {f : γ → β} {S : α → γ → Prop} (h : List.Forall₂ R as bs)
    (step : ∀ a ∈ as, ∀ b, R a b → ∃ c, f c = b ∧ S a c) :
    ∃ cs, cs.map f = bs ∧ List.Forall₂ S as cs := by
  induction h with
  | nil => exact ⟨[], rfl, .nil⟩
  | cons head _ ih =>
    obtain ⟨c, rfl, related⟩ := step _ List.mem_cons_self _ head
    obtain ⟨cs, rfl, rest⟩ := ih fun a member => step a (List.mem_cons_of_mem _ member)
    exact ⟨c :: cs, rfl, .cons related rest⟩

theorem forall₂_join {γ : Type} {S : α → γ → Prop} {T : γ → β → Prop} {cs : List γ}
    (h : List.Forall₂ R as bs) (also : List.Forall₂ S as cs)
    (join : ∀ a ∈ as, ∀ b c, R a b → S a c → T c b) : List.Forall₂ T cs bs := by
  induction h generalizing cs with
  | nil =>
    cases also
    exact .nil
  | cons head _ ih =>
    obtain ⟨c, rest, also_head, also_rest, rfl⟩ := List.forall₂_cons_left_iff.mp also
    exact .cons (join _ List.mem_cons_self _ _ head also_head)
      (ih also_rest fun a member => join a (List.mem_cons_of_mem _ member))

theorem forall_mem_congr {P : α → Prop} {Q : β → Prop} (h : List.Forall₂ R as bs)
    (same : ∀ a b, R a b → (P a ↔ Q b)) : (∀ a ∈ as, P a) ↔ ∀ b ∈ bs, Q b := by
  induction h with
  | nil => simp
  | cons head _ ih => rw [List.forall_mem_cons, List.forall_mem_cons, same _ _ head, ih]

theorem map_eq_map {γ : Type} {f : α → γ} {g : β → γ} (h : List.Forall₂ R as bs)
    (same : ∀ a b, R a b → f a = g b) : as.map f = bs.map g := by
  rw [← List.forall₂_eq_eq_eq, List.forall₂_map_left_iff, List.forall₂_map_right_iff]
  exact h.imp same

theorem mapM_eq_mapM_id {ε γ : Type} (f : α → Except ε γ) (as : List α) :
    as.mapM f = (as.map f).mapM id := by
  rw [List.mapM_map]
  rfl

theorem mapM_congr {ε γ : Type} {f : α → Except ε γ} {g : β → Except ε γ}
    (h : List.Forall₂ (fun a b => f a = g b) as bs) : as.mapM f = bs.mapM g := by
  rw [mapM_eq_mapM_id f, map_eq_map h fun _ _ same => same, ← mapM_eq_mapM_id g]

end Matched

namespace Reader
variable {α β : Type}

theorem bind_eq_ok {reader : Reader α} {next : α → Reader β} {before after : Cursor} {b : β} :
    (reader >>= next) before = .ok b after ↔
      ∃ a middle, reader before = .ok a middle ∧ next a middle = .ok b after := by
  constructor
  · intro h
    simp only [bind, EStateM.bind] at h
    split at h
    · rename_i a middle first
      exact ⟨a, middle, first, h⟩
    · cases h
  · rintro ⟨a, middle, first, second⟩
    rw [bind_ok first]
    exact second

theorem bind_pure_eq_ok {reader : Reader α} {wrap : α → β} {before after : Cursor} {b : β} :
    (reader >>= fun a => pure (wrap a)) before = .ok b after ↔
      ∃ a, reader before = .ok a after ∧ wrap a = b := by
  rw [bind_eq_ok]
  constructor
  · rintro ⟨a, middle, read, h⟩
    cases h
    exact ⟨a, read, rfl⟩
  · rintro ⟨a, read, rfl⟩
    exact ⟨a, after, read, rfl⟩

theorem ofExcept_eq_ok {result : Except Error α} {before after : Cursor} {a : α} :
    ofExcept result before = .ok a after ↔ result = .ok a ∧ before = after := by
  cases result with
  | error e => exact ⟨nofun, nofun⟩
  | ok b =>
    constructor
    · intro h
      cases h
      exact ⟨rfl, rfl⟩
    · rintro ⟨same, rfl⟩
      cases same
      rfl

theorem bind_error {reader : Reader α} (next : α → Reader β) {before after : Cursor} {e : Error}
    (h : reader before = .error e after) : (reader >>= next) before = .error e after := by
  simp [bind, EStateM.bind, h]

@[simp] theorem pure_apply (a : α) (cursor : Cursor) :
    (pure a : Reader α) cursor = .ok a cursor := rfl

theorem get_apply (cursor : Cursor) : (get : Reader Cursor) cursor = .ok cursor cursor := rfl

end Reader
end LedgerWire
