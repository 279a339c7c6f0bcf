import LedgerWire.Address.Tagged
import LedgerWire.Json.Printer
import LedgerWire.Error
import LedgerWire.Text.Digits

/-!
Tagged addresses among the members of an object. Each is replaced by its classic address; the tag
of an `Account` or a `Destination` moves to a member of its own, which must not say otherwise, and
no other member may carry a tag.
-/

namespace LedgerWire

def tagMember? (name : String) : Option String :=
  [("Account", "SourceTag"), ("Destination", "DestinationTag")].lookup name

/-- The number of four bytes that decimal digits spell, a plus in front of them allowed. -/
def tagOfText? (text : String) : Option UInt32 :=
  let digits := match text.toList with
    | '+' :: rest => rest
    | all => all
  let n := Text.natOfDigits digits
  if Text.isDigits digits && n < capacity 4 then some (UInt32.ofNat n) else none

def tagAgrees (tag : UInt32) : Json → Bool
  | .number (.integer n) => n == tag.toNat
  | .string text => tagOfText? text == some tag
  | _ => false

def explicitText : Json → String
  | .string text => text
  | json => json.compact

def addressEdits (members : List (String × Json)) (name : String) (value : Json) :
    Except Error (List (String × Json)) := do
  let .string text := value | return []
  let .ok x := TaggedAddress.decode text | return []
  let classic := (name, .string x.classic)
  let some tag := x.tag | return [classic]
  let some tagName := tagMember? name | .error (.tagNotAllowed name)
  let added := (tagName, Json.ofNat tag.toNat)
  match members.lookup tagName with
  | none => return [classic, added]
  | some .null => return [classic, added]
  | some explicit =>
    if tagAgrees tag explicit then return [classic]
    else .error (.tagConflict name tag tagName (explicitText explicit))

/-- The members to set for all of an object's tagged addresses, in the order of its members. -/
def expansionEdits (members : List (String × Json)) : Except Error (List (String × Json)) := do
  return (← members.mapM fun (name, value) => addressEdits members name value).flatten

def expandAddresses (members : List (String × Json)) : Except Error (List (String × Json)) := do
  return (← expansionEdits members).foldl (fun all edit => setMember edit.1 edit.2 all) members

end LedgerWire
