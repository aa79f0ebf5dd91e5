import Stylesheet.Text.Hidden

/-! # Quoted text

Messages show a text in double quotes. The quote and the backslash are marked
by a backslash, four controls have short forms, and every other hidden
character is written by its code point in hexadecimal.
-/

namespace Stylesheet.Text

/-- A character as it stands between the quotes. -/
def quoteChar (c : Char) : List Char :=
  match c with
  | '\x00' => ['\\', '0']
  | '\t' => ['\\', 't']
  | '\r' => ['\\', 'r']
  | '\n' => ['\\', 'n']
  | '\\' => ['\\', '\\']
  | '"' => ['\\', '"']
  | c => if isHidden c then "\\u\x7b".toList ++ Nat.toDigits 16 c.toNat ++ ['\x7d'] else [c]

def quoted (text : String) : String :=
  String.ofList ('"' :: text.toList.flatMap quoteChar ++ ['"'])

end Stylesheet.Text
