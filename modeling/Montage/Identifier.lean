import Montage.Text.Search

/-!
# Fresh identifiers

An identifier is a number of 128 bits, written in hexadecimal digits in five
groups. Six of its bits say that it was drawn at random. Numbers that are taken
in steps from a random start are different as long as there are enough of them.
-/

namespace Montage.Identifier

def hexDigits (count n : Nat) : String :=
  String.ofList ((List.range count).map fun i =>
    (Nat.toDigits 16 (n / Nat.pow 16 (count - 1 - i) % 16)).headD '0')

def ofNumber (n : Nat) : String :=
  "-".intercalate [hexDigits 8 (n / Nat.pow 2 90), hexDigits 4 (n / Nat.pow 2 74),
    "4" ++ hexDigits 3 (n / Nat.pow 2 62),
    hexDigits 4 (n / Nat.pow 2 48 % Nat.pow 2 14 + Nat.pow 2 15), hexDigits 12 n]

def fresh (start k : Nat) : String := ofNumber (start + k)

def mark (n : Nat) : String :=
  String.ofList ((List.range 6).map fun i => Char.ofNat ('a'.toNat + n / Nat.pow 26 i % 26))

example : ofNumber 0 = "00000000-0000-4000-8000-000000000000" := by decide
example : mark 27 = "bbaaaa" := by decide

end Montage.Identifier
