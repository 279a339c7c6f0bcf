import LedgerWire.Hex
import LedgerWire.Json.Numeral

/-!
Reading JSON text. The grammar is strict: one value, with blanks only between its tokens. What the
grammar admits may still have no value: a number beyond the doubles, a string with an unpaired
surrogate, an object with such a name.
-/

namespace LedgerWire.Json

def isSpace (c : Char) : Bool :=
  c == ' ' || c == '\t' || c == '\n' || c == '\r'

def skipSpace (text : List Char) : List Char :=
  text.dropWhile isSpace

def codeUnit : List Char → Option (Nat × List Char)
  | a :: b :: c :: d :: rest => (Hex.natOfDigits? [a, b, c, d]).map fun code => (code, rest)
  | _ => none

def escape : List Char → Option (Nat × List Char)
  | '"' :: rest => some (0x22, rest)
  | '\\' :: rest => some (0x5C, rest)
  | '/' :: rest => some (0x2F, rest)
  | 'b' :: rest => some (0x08, rest)
  | 'f' :: rest => some (0x0C, rest)
  | 'n' :: rest => some (0x0A, rest)
  | 'r' :: rest => some (0x0D, rest)
  | 't' :: rest => some (0x09, rest)
  | 'u' :: rest => codeUnit rest
  | _ => none

/-- The codes up to the closing quote; `before` holds those that were read, last first. Each step
takes a character, so the length of the text is enough `steps`. -/
def stringBody : (steps : Nat) → (before : List Nat) → (text : List Char) →
    Option (List Nat × List Char)
  | 0, _, _ => none
  | _ + 1, before, '"' :: rest => some (before.reverse, rest)
  | steps + 1, before, '\\' :: rest => do
    let (code, rest) ← escape rest
    stringBody steps (code :: before) rest
  | steps + 1, before, c :: rest =>
    if c.toNat < 32 then none else stringBody steps (c.toNat :: before) rest
  | _ + 1, _, [] => none

def isHighSurrogate (code : Nat) : Bool := 0xD800 ≤ code && code < 0xDC00

def isLowSurrogate (code : Nat) : Bool := 0xDC00 ≤ code && code < 0xE000

/-- The characters that codes stand for: two surrogates make one, and none may stand alone. -/
def characters? : List Nat → Option (List Char)
  | [] => some []
  | high :: low :: rest =>
    if isHighSurrogate high && isLowSurrogate low then
      (characters? rest).map fun chars =>
        Char.ofNat (0x10000 + (high - 0xD800) * 0x400 + (low - 0xDC00)) :: chars
    else if isHighSurrogate high || isLowSurrogate high then none
    else (characters? (low :: rest)).map fun chars => Char.ofNat high :: chars
  | [code] =>
    if isHighSurrogate code || isLowSurrogate code then none else some [Char.ofNat code]

def stringToken (text : List Char) : Option (Option String × List Char) := do
  let (codes, rest) ← stringBody (text.length + 1) [] text
  return ((characters? codes).map String.ofList, rest)

/-- What is left open by the grammar. -/
structure Rules where
  gather : String → Json → List (String × Json) → List (String × Json)
  /-- What stands for a part that has no value; without it the text is refused. -/
  blank : Option Json
  levels : Nat

def Rules.settle (rules : Rules) (value : Option Json) : Option Json :=
  value <|> rules.blank

mutual
/-- The value at the front of a text. `levels` is the number of containers that may still be
opened. Each step takes a character or enters a container, so twice the length of the text is
enough `steps`. -/
def value (rules : Rules) : (steps levels : Nat) → List Char → Option (Json × List Char)
  | 0, _, _ => none
  | steps + 1, levels, text =>
    match skipSpace text with
    | 'n' :: 'u' :: 'l' :: 'l' :: rest => some (.null, rest)
    | 't' :: 'r' :: 'u' :: 'e' :: rest => some (.bool true, rest)
    | 'f' :: 'a' :: 'l' :: 's' :: 'e' :: rest => some (.bool false, rest)
    | '"' :: rest => do
      let (text, rest) ← stringToken rest
      return (← rules.settle (text.map .string), rest)
    | '[' :: rest =>
      match levels with
      | 0 => none
      | levels + 1 =>
        match skipSpace rest with
        | ']' :: rest => some (.array [], rest)
        | rest => items rules steps levels [] rest
    | '{' :: rest =>
      match levels with
      | 0 => none
      | levels + 1 =>
        match skipSpace rest with
        | '}' :: rest => some (.object [], rest)
        | rest => members rules steps levels (some []) rest
    | text => do
      let (n, rest) ← numeral text
      return (← rules.settle (n.map .number), rest)

def items (rules : Rules) :
    (steps levels : Nat) → List Json → List Char → Option (Json × List Char)
  | 0, _, _, _ => none
  | steps + 1, levels, before, text => do
    let (item, rest) ← value rules steps levels text
    match skipSpace rest with
    | ',' :: rest => items rules steps levels (item :: before) rest
    | ']' :: rest => return (.array (item :: before).reverse, rest)
    | _ => none

def members (rules : Rules) :
    (steps levels : Nat) → Option (List (String × Json)) → List Char → Option (Json × List Char)
  | 0, _, _, _ => none
  | steps + 1, levels, before, text =>
    match skipSpace text with
    | '"' :: rest => do
      let (name, rest) ← stringToken rest
      match skipSpace rest with
      | ':' :: rest =>
        let (item, rest) ← value rules steps levels rest
        let joined := do return rules.gather (← name) item (← before)
        match skipSpace rest with
        | ',' :: rest => members rules steps levels joined rest
        | '}' :: rest => return (← rules.settle (joined.map .object), rest)
        | _ => none
      | _ => none
    | _ => none
end

def parseBy? (rules : Rules) (text : String) : Option Json := do
  let chars := text.toList
  let (json, rest) ← value rules (2 * chars.length + 1) rules.levels chars
  guard (skipSpace rest).isEmpty
  return json

/-- The value that a text holds: every part of it has one, no more than 127 containers are open at
a time, and a name that repeats keeps its first place and takes the last value. -/
def parse? (text : String) : Option Json :=
  parseBy? { gather := setMember, blank := none, levels := 127 } text

/-- The value that a text holds with every member that it spells out, at any depth, and null for
every part that has no value. -/
def parseVerbatim? (text : String) : Option Json :=
  parseBy? {
    gather := fun name value before => before ++ [(name, value)]
    blank := some .null
    levels := text.length } text

end LedgerWire.Json
