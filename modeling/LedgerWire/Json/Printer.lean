import LedgerWire.Decimal.Positional
import LedgerWire.Decimal.Shortest
import LedgerWire.Json.Basic

namespace LedgerWire

/-- A double as text: the shortest digits that read back. They are written out with at least one
place after the point when the leading digit stands for 10 ^ -5 to 10 ^ 15, with an exponent
otherwise. -/
def Binary64.text (x : Binary64) : String :=
  let sign := if x.negative then ['-'] else []
  if x.magnitude.isZero then String.ofList (sign ++ ['0', '.', '0']) else
  let (coefficient, exponent) := x.magnitude.shortest
  let (digits, _) := Decimal.stripZeros (Nat.toDigits 10 coefficient)
  let lead := exponent + (Nat.toDigits 10 coefficient).length - 1
  String.ofList <| sign ++
    if -5 ≤ lead ∧ lead ≤ 15 then
      Decimal.positional digits (lead + 1) ++
        (if (digits.length : Int) ≤ lead + 1 then ['.', '0'] else [])
    else Decimal.scientific digits lead

def Numeral.text : Numeral → String
  | .integer n => toString n
  | .real x => x.text

namespace Json

def escapedChar (c : Char) : List Char :=
  match c with
  | '"' => ['\\', '"']
  | '\\' => ['\\', '\\']
  | '\n' => ['\\', 'n']
  | '\r' => ['\\', 'r']
  | '\t' => ['\\', 't']
  | '\x08' => ['\\', 'b']
  | '\x0c' => ['\\', 'f']
  | _ =>
    if c.toNat < 16 then ['\\', 'u', '0', '0', '0'] ++ Nat.toDigits 16 c.toNat
    else if c.toNat < 32 then ['\\', 'u', '0', '0'] ++ Nat.toDigits 16 c.toNat
    else [c]

def quote (text : String) : String :=
  String.ofList (['"'] ++ text.toList.flatMap escapedChar ++ ['"'])

mutual
def compact : Json → String
  | .null => "null"
  | .bool true => "true"
  | .bool false => "false"
  | .number n => n.text
  | .string text => quote text
  | .array items => "[" ++ ",".intercalate (compactItems items) ++ "]"
  | .object members => "\x7b" ++ ",".intercalate (compactMembers members) ++ "\x7d"

def compactItems : List Json → List String
  | [] => []
  | item :: rest => compact item :: compactItems rest

def compactMembers : List (String × Json) → List String
  | [] => []
  | (name, value) :: rest => (quote name ++ ":" ++ compact value) :: compactMembers rest
end

def newline (level : Nat) : String :=
  String.ofList ('\n' :: List.replicate (2 * level) ' ')

def block (level : Nat) (opening closing : String) (parts : List String) : String :=
  if parts.isEmpty then opening ++ closing
  else opening ++ newline (level + 1) ++ ("," ++ newline (level + 1)).intercalate parts ++
    newline level ++ closing

mutual
def indented (level : Nat) : Json → String
  | .array items => block level "[" "]" (indentedItems (level + 1) items)
  | .object members => block level "\x7b" "\x7d" (indentedMembers (level + 1) members)
  | .null => "null"
  | .bool true => "true"
  | .bool false => "false"
  | .number n => n.text
  | .string text => quote text

def indentedItems (level : Nat) : List Json → List String
  | [] => []
  | item :: rest => indented level item :: indentedItems level rest

def indentedMembers (level : Nat) : List (String × Json) → List String
  | [] => []
  | (name, value) :: rest =>
    (quote name ++ ": " ++ indented level value) :: indentedMembers level rest
end

def pretty (value : Json) : String := indented 0 value

end Json
end LedgerWire
