import Montage.Text.Hidden

/-!
# Quoted texts

A text between quotes, where a message has to show exactly which text it is:
quotes of either kind and backslashes get a backslash, the common controls their
letter, and every other hidden character its code point.
-/

namespace Montage.Text

def escapedChar (c : Char) : List Char :=
  match c with
  | '"' => ['\\', '"']
  | '\'' => ['\\', '\'']
  | '\\' => ['\\', '\\']
  | '\x00' => ['\\', '0']
  | '\t' => ['\\', 't']
  | '\n' => ['\\', 'n']
  | '\r' => ['\\', 'r']
  | c => if isHidden c then ['\\', 'u', '\x7b'] ++ Nat.toDigits 16 c.toNat ++ ['\x7d'] else [c]

def quoted (text : String) : String :=
  "\"" ++ String.ofList (text.toList.flatMap escapedChar) ++ "\""

example : quoted "a\"b\\\n\x00\x7fé" = "\"a\\\"b\\\\\\n\\0\\u\x7b7f\x7dé\"" := by decide +kernel

end Montage.Text
