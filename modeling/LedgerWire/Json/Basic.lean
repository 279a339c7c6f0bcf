import LedgerWire.Decimal.Binary64

namespace LedgerWire

/-- A number: an integer that fits 64 bits, signed or unsigned, or a finite double. -/
inductive Numeral
  | integer (n : Int)
  | real (x : Binary64)
deriving DecidableEq, Repr

inductive Json
  | null
  | bool (b : Bool)
  | number (n : Numeral)
  | string (text : String)
  | array (items : List Json)
  | object (members : List (String × Json))
deriving Repr, BEq, Inhabited

/-- Sets a member: a name that is there keeps its place, a new one goes to the end. -/
def setMember {α : Type} (name : String) (value : α) : List (String × α) → List (String × α)
  | [] => [(name, value)]
  | (first, old) :: rest =>
    if first = name then (first, value) :: rest else (first, old) :: setMember name value rest

theorem lookup_setMember {α : Type} (name other : String) (value : α)
    (members : List (String × α)) :
    (setMember name value members).lookup other =
      if other = name then some value else members.lookup other := by
  induction members with
  | nil =>
    by_cases h : other = name <;> simp [setMember, List.lookup_cons, h, beq_eq_false_iff_ne.2]
  | cons first rest ih =>
    obtain ⟨first, old⟩ := first
    by_cases same : first = name
    · subst same
      by_cases h : other = first <;> simp [setMember, List.lookup_cons, h, beq_eq_false_iff_ne.2]
    · by_cases h : other = first
      · subst h
        simp [setMember, same]
      · simp [setMember, List.lookup_cons, same, h, ih, beq_eq_false_iff_ne.2]

namespace Json

def ofNat (n : Nat) : Json := .number (.integer n)

def get? (name : String) : Json → Option Json
  | .object members => members.lookup name
  | _ => none

def string? : Json → Option String
  | .string text => some text
  | _ => none

end Json
end LedgerWire
