import Montage.Json.Basic
import Montage.Number.Shortest

/-!
# Printing JSON

One element or member a line, indented by two blanks for each level; empty
arrays and objects stay on their line. Only what has to be is escaped: quotes,
backslashes and control characters. A number that JSON cannot write is null.
-/

namespace Montage.Json

def hexDigit (n : Nat) : Char := (Nat.toDigits 16 (n % 16)).headD '0'

def escaped (c : Char) : List Char :=
  match c with
  | '"' => ['\\', '"']
  | '\\' => ['\\', '\\']
  | '\x08' => ['\\', 'b']
  | '\x0c' => ['\\', 'f']
  | '\n' => ['\\', 'n']
  | '\r' => ['\\', 'r']
  | '\t' => ['\\', 't']
  | c =>
    if c.toNat < 32 then ['\\', 'u', '0', '0', hexDigit (c.toNat / 16), hexDigit c.toNat] else [c]

def quoted (text : String) : String :=
  "\"" ++ String.ofList (text.toList.flatMap escaped) ++ "\""

def ofFloat (x : Float) : Json :=
  if x.isFinite then .number (DecimalLayout.jsonDouble.render .double (.ofFloat x)) else .null

def ofFloat32 (x : Float32) : Json :=
  if x.isFinite then .number (DecimalLayout.jsonSingle.render .single (.ofFloat32 x)) else .null

def indent (level : Nat) : String := String.ofList (List.replicate (2 * level) ' ')

def block (opening closing : String) (level : Nat) (items : List String) : String :=
  if items.isEmpty then opening ++ closing
  else
    opening ++ "\n" ++ indent (level + 1) ++ (",\n" ++ indent (level + 1)).intercalate items ++
      "\n" ++ indent level ++ closing

mutual

def prettyAt (level : Nat) : Json → String
  | .null => "null"
  | .bool true => "true"
  | .bool false => "false"
  | .number text => text
  | .string text => quoted (text.getD "")
  | .array elements => block "[" "]" level (prettyElements (level + 1) elements)
  | .object members => block "\x7b" "\x7d" level (prettyMembers (level + 1) members)

def prettyElements (level : Nat) : List Json → List String
  | [] => []
  | value :: values => prettyAt level value :: prettyElements level values

def prettyMembers (level : Nat) : List (Option String × Json) → List String
  | [] => []
  | (key, value) :: members =>
    (quoted (key.getD "") ++ ": " ++ prettyAt level value) :: prettyMembers level members

end

def pretty (value : Json) : String := prettyAt 0 value

example : pretty (.array [.ofString "a\"\n", .object []]) = "[\n  \"a\\\"\\n\",\n  \x7b\x7d\n]" := by
  decide +kernel

end Montage.Json
