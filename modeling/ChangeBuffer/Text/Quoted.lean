import ChangeBuffer.Bytes.Hex
import ChangeBuffer.Text.Printable

/-! # Quoted text

Text between double quotes.  Quotes, backslashes and the common controls get a backslash, and
every other character that is not printable appears as its code point.
-/

namespace ChangeBuffer.Quoted

/-- One character as it stands between the quotes. -/
def escape (c : Char) : List Char :=
  match c with
  | '\x00' => ['\\', '0']
  | '\t' => ['\\', 't']
  | '\n' => ['\\', 'n']
  | '\r' => ['\\', 'r']
  | '"' => ['\\', '"']
  | '\\' => ['\\', '\\']
  | c =>
    if Printable.isPrintable c then [c]
    else ['\\', 'u', '\x7b'] ++ Hex.ofNat c.toNat ++ ['\x7d']

def write (s : String) : List Char :=
  '"' :: s.toList.flatMap escape ++ ['"']

end ChangeBuffer.Quoted
