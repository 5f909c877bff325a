import Montage.Json.Basic

/-!
# Reading JSON

The grammar of JSON and nothing more: four blanks, no leading zeros, no control
characters in strings, no text behind the value. Each reader takes a beginning
of the text and gives what it read and the rest.

A value inside a value begins at least one character further on, so the length
of the text bounds the depth; that bound is the fuel of the readers of arrays
and objects.
-/

namespace Montage.Json

def isSpace (c : Char) : Bool := c == ' ' || c == '\n' || c == '\t' || c == '\r'

def skipSpace (cs : List Char) : List Char := cs.dropWhile isSpace

def hexValue? (c : Char) : Option Nat :=
  if '0' ≤ c ∧ c ≤ '9' then some (c.toNat - '0'.toNat)
  else if 'a' ≤ c ∧ c ≤ 'f' then some (c.toNat - 'a'.toNat + 10)
  else if 'A' ≤ c ∧ c ≤ 'F' then some (c.toNat - 'A'.toNat + 10)
  else none

/-- A character of a string, or a UTF-16 unit that was written in digits. -/
inductive StringPart where
  | plain (c : Char)
  | unit (value : Nat)
  deriving DecidableEq, Repr

def escape? : Char → Option Char
  | '"' => some '"'
  | '\\' => some '\\'
  | '/' => some '/'
  | 'b' => some '\x08'
  | 'f' => some '\x0c'
  | 'n' => some '\n'
  | 'r' => some '\r'
  | 't' => some '\t'
  | _ => none

/-- The parts of a string up to its closing quote, and the text behind it. -/
def stringParts : List Char → Option (List StringPart × List Char)
  | [] => none
  | '"' :: cs => some ([], cs)
  | '\\' :: 'u' :: a :: b :: c :: d :: cs => do
    let value := (((← hexValue? a) * 16 + (← hexValue? b)) * 16 + (← hexValue? c)) * 16 +
      (← hexValue? d)
    let (parts, rest) ← stringParts cs
    return (.unit value :: parts, rest)
  | '\\' :: c :: cs => do
    let c ← escape? c
    let (parts, rest) ← stringParts cs
    return (.plain c :: parts, rest)
  | c :: cs =>
    if c.toNat < 32 ∨ c = '\\' then none
    else do
      let (parts, rest) ← stringParts cs
      return (.plain c :: parts, rest)

/-- The text of string parts; none if half of a surrogate pair stands alone. -/
def joinParts : List StringPart → Option (List Char)
  | [] => some []
  | .plain c :: parts => (joinParts parts).map (c :: ·)
  | .unit high :: .unit low :: parts =>
    if 0xD800 ≤ high ∧ high < 0xDC00 then
      if 0xDC00 ≤ low ∧ low < 0xE000 then
        (joinParts parts).map
          (Char.ofNat (0x10000 + (high - 0xD800) * 0x400 + (low - 0xDC00)) :: ·)
      else none
    else if 0xDC00 ≤ high ∧ high < 0xE000 then none
    else (joinParts (.unit low :: parts)).map (Char.ofNat high :: ·)
  | .unit value :: parts =>
    if 0xD800 ≤ value ∧ value < 0xE000 then none
    else (joinParts parts).map (Char.ofNat value :: ·)

def readString (cs : List Char) : Option (Option String × List Char) :=
  (stringParts cs).map fun (parts, rest) => ((joinParts parts).map String.ofList, rest)

def someDigits? (cs : List Char) : Option (List Char × List Char) :=
  match cs.takeWhile Char.isDigit with
  | [] => none
  | ds => some (ds, cs.dropWhile Char.isDigit)

/-- The integer part of a number: a lone zero, or no zero in front. -/
def readWhole (cs : List Char) : Option (List Char × List Char) :=
  match cs with
  | '0' :: cs => some (['0'], cs)
  | cs => someDigits? cs

def readFraction (cs : List Char) : Option (List Char × List Char) :=
  match cs with
  | '.' :: cs => (someDigits? cs).map fun (ds, rest) => ('.' :: ds, rest)
  | cs => some ([], cs)

def readExponent (cs : List Char) : Option (List Char × List Char) :=
  match cs with
  | e :: cs =>
    if e = 'e' ∨ e = 'E' then
      match cs with
      | '+' :: cs => (someDigits? cs).map fun (ds, rest) => (e :: '+' :: ds, rest)
      | '-' :: cs => (someDigits? cs).map fun (ds, rest) => (e :: '-' :: ds, rest)
      | cs => (someDigits? cs).map fun (ds, rest) => (e :: ds, rest)
    else some ([], e :: cs)
  | [] => some ([], [])

def readNumber (cs : List Char) : Option (Json × List Char) := do
  let (sign, cs) :=
    match cs with
    | '-' :: cs => (['-'], cs)
    | cs => ([], cs)
  let (whole, cs) ← readWhole cs
  let (fraction, cs) ← readFraction cs
  let (exponent, cs) ← readExponent cs
  return (.number (String.ofList (sign ++ whole ++ fraction ++ exponent)), cs)

def readWord (word : String) (value : Json) (cs : List Char) : Option (Json × List Char) :=
  (word.toList.isPrefixOf? cs).map fun rest => (value, rest)

mutual

def readValue : Nat → List Char → Option (Json × List Char)
  | 0, _ => none
  | fuel + 1, cs =>
    match skipSpace cs with
    | '"' :: cs => (readString cs).map fun (text, rest) => (.string text, rest)
    | '[' :: cs =>
      match skipSpace cs with
      | ']' :: rest => some (.array [], rest)
      | cs => (readElements fuel cs).map fun (elements, rest) => (.array elements, rest)
    | '\x7b' :: cs =>
      match skipSpace cs with
      | '\x7d' :: rest => some (.object [], rest)
      | cs => (readMembers fuel cs).map fun (members, rest) => (.object members, rest)
    | 't' :: cs => readWord "true" (.bool true) ('t' :: cs)
    | 'f' :: cs => readWord "false" (.bool false) ('f' :: cs)
    | 'n' :: cs => readWord "null" .null ('n' :: cs)
    | cs => readNumber cs

def readElements : Nat → List Char → Option (List Json × List Char)
  | 0, _ => none
  | fuel + 1, cs => do
    let (value, cs) ← readValue fuel cs
    match skipSpace cs with
    | ']' :: rest => some ([value], rest)
    | ',' :: cs => (readElements fuel cs).map fun (values, rest) => (value :: values, rest)
    | _ => none

def readMembers : Nat → List Char → Option (List (Option String × Json) × List Char)
  | 0, _ => none
  | fuel + 1, cs =>
    match skipSpace cs with
    | '"' :: cs => do
      let (key, cs) ← readString cs
      match skipSpace cs with
      | ':' :: cs =>
        let (value, cs) ← readValue fuel cs
        match skipSpace cs with
        | '\x7d' :: rest => some ([(key, value)], rest)
        | ',' :: cs =>
          (readMembers fuel cs).map fun (members, rest) => ((key, value) :: members, rest)
        | _ => none
      | _ => none
    | _ => none

end

def ofText? (text : String) : Option Json :=
  let cs := text.toList
  match readValue (2 * cs.length + 2) cs with
  | some (value, rest) => if skipSpace rest = [] then some value else none
  | none => none

example : (joinParts [.unit 0xD83D, .unit 0xDE00]) = some ['😀'] ∧
    joinParts [.unit 0xD83D, .plain 'a'] = none := by decide

end Montage.Json
