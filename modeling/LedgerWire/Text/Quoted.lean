import LedgerWire.Text.Printable

namespace LedgerWire.Text

def lowerHex (n : Nat) : List Char :=
  Nat.toDigits 16 n

def quotedChar (quote c : Char) : List Char :=
  match c with
  | '\x00' => ['\\', '0']
  | '\t' => ['\\', 't']
  | '\r' => ['\\', 'r']
  | '\n' => ['\\', 'n']
  | '\\' => ['\\', '\\']
  | _ =>
    if c = quote then ['\\', c]
    else if isPrintable c then [c]
    else ['\\', 'u', '{'] ++ lowerHex c.toNat ++ ['}']

def quoted (text : String) : String :=
  String.ofList (['"'] ++ text.toList.flatMap (quotedChar '"') ++ ['"'])

def quotedSingle (c : Char) : String :=
  String.ofList (['\''] ++ quotedChar '\'' c ++ ['\''])

end LedgerWire.Text
