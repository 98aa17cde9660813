import ProxyRouting.Text.Digits
import ProxyRouting.Text.HiddenTable

/-!
Two ways to write a text between double quotes: as a string of JSON and of scripts, and as a citation
in a message, where everything a reader could not see is spelled out.
-/
namespace ProxyRouting.Text

/-- A character inside a JSON string: quotes, backslashes and controls are escaped, all else is raw. -/
def escapeChar (c : Char) : Text :=
  match c with
  | '"' => ['\\', '"']
  | '\\' => ['\\', '\\']
  | '\x08' => ['\\', 'b']
  | '\x0c' => ['\\', 'f']
  | '\n' => ['\\', 'n']
  | '\r' => ['\\', 'r']
  | '\t' => ['\\', 't']
  | c => if c.toNat < 0x20 then '\\' :: 'u' :: padZeros 4 (hexLower c.toNat) else [c]

/-- The text as a JSON string, which is also a string of the script language. -/
def quote (t : Text) : Text := '"' :: t.flatMap escapeChar ++ ['"']

/-- A character inside a citation: a hidden one is written as its code point in braces. -/
def citeChar (c : Char) : Text :=
  match c with
  | '"' => ['\\', '"']
  | '\\' => ['\\', '\\']
  | '\n' => ['\\', 'n']
  | '\r' => ['\\', 'r']
  | '\t' => ['\\', 't']
  | '\x00' => ['\\', '0']
  | c => if isHidden c then '\\' :: 'u' :: '\x7b' :: hexLower c.toNat ++ ['\x7d'] else [c]

/-- The text as a message cites it. -/
def cite (t : Text) : Text := '"' :: t.flatMap citeChar ++ ['"']

end ProxyRouting.Text
