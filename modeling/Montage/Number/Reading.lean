import Montage.Number.Binary
import Montage.Text.Blank

/-!
# Numbers read from text

Integers are ASCII digits with an optional sign. A reader goes from left to
right and reports the first fault that it meets: a character that is no digit,
or the digit that takes the number beyond its limit.

A floating-point numeral is digits with an optional point and an optional
exponent, or the name of an infinity or NaN in any case. It is kept as an exact
decimal and rounded once, to the nearest number of the format.
-/

namespace Montage

inductive IntegerFault where
  | empty
  | invalidDigit
  | tooLarge
  | tooSmall
  deriving DecidableEq, Repr

def IntegerFault.message : IntegerFault → String
  | empty => "cannot parse integer from empty string"
  | invalidDigit => "invalid digit found in string"
  | tooLarge => "number too large to fit in target type"
  | tooSmall => "number too small to fit in target type"

def digitValue? (c : Char) : Option Nat := if c.isDigit then some (c.toNat - '0'.toNat) else none

/-- Reads digits after a number already read, which may not pass `limit`. -/
def readDigits (limit : Nat) (tooFar : IntegerFault) : Nat → List Char → Except IntegerFault Nat
  | n, [] => .ok n
  | n, c :: cs =>
    match digitValue? c with
    | none => .error .invalidDigit
    | some d =>
      if 10 * n + d ≤ limit then readDigits limit tooFar (10 * n + d) cs else .error tooFar

def readNatural (limit : Nat) : List Char → Except IntegerFault Nat
  | [] => .error .empty
  | ['+'] => .error .invalidDigit
  | '+' :: cs => readDigits limit .tooLarge 0 cs
  | cs => readDigits limit .tooLarge 0 cs

def readInteger (limit : Nat) : List Char → Except IntegerFault Int
  | ['-'] => .error .invalidDigit
  | '-' :: cs => (readDigits (limit + 1) .tooSmall 0 cs).map fun n => -(n : Int)
  | cs => (readNatural limit cs).map fun n => (n : Int)

def natural64 : Nat := UInt64.size - 1

def natural32 : Nat := UInt32.size - 1

def integer32 : Nat := UInt32.size / 2 - 1

/-- A floating-point numeral before it is rounded. -/
inductive Numeral where
  | finite (negative : Bool) (digits : Nat) (exponent : Int)
  | infinite (negative : Bool)
  | nan (negative : Bool)
  deriving DecidableEq, Repr

namespace Numeral

def takeDigits (cs : List Char) : Nat × Nat × List Char :=
  let digits := cs.takeWhile Char.isDigit
  (digits.foldl (fun n c => 10 * n + (c.toNat - '0'.toNat)) 0, digits.length,
    cs.dropWhile Char.isDigit)

/-- The exponent part of a numeral, which must be all of the text. -/
def exponent? : List Char → Option Int
  | [] => some 0
  | e :: cs =>
    if e = 'e' ∨ e = 'E' then
      let (negative, cs) :=
        match cs with
        | '-' :: cs => (true, cs)
        | '+' :: cs => (false, cs)
        | cs => (false, cs)
      match takeDigits cs with
      | (n, count, rest) =>
        if count = 0 ∨ rest ≠ [] then none else some (if negative then -(n : Int) else n)
    else none

def magnitude? (negative : Bool) (cs : List Char) : Option Numeral :=
  let (whole, wholeCount, rest) := takeDigits cs
  let (digits, fractionCount, rest) :=
    match rest with
    | '.' :: rest =>
      let (fraction, fractionCount, rest) := takeDigits rest
      (whole * Nat.pow 10 fractionCount + fraction, fractionCount, rest)
    | rest => (whole, 0, rest)
  if wholeCount + fractionCount = 0 then
    match String.ofList (cs.map Char.toLower) with
    | "inf" | "infinity" => some (.infinite negative)
    | "nan" => some (.nan negative)
    | _ => none
  else (exponent? rest).map fun e => .finite negative digits (e - fractionCount)

def ofText? (s : String) : Option Numeral :=
  match s.toList with
  | '-' :: cs => magnitude? true cs
  | '+' :: cs => magnitude? false cs
  | cs => magnitude? false cs

/-- The bit pattern of the number nearest to a numeral. Decimals beyond the
four-hundredth power of ten are out of reach of every format, so their powers
are not computed. -/
def bits (f : BinaryFormat) : Numeral → Nat
  | .nan negative => f.quietNaN negative
  | .infinite negative => f.infinity negative
  | .finite negative digits exponent =>
    if digits = 0 then f.nearest negative 0 1
    else if 400 < exponent then f.infinity negative
    else if (Nat.log2 digits : Int) + 1 + exponent < -400 then f.nearest negative 0 1
    else f.nearest negative (digits * Nat.pow 10 exponent.toNat) (Nat.pow 10 (-exponent).toNat)

def toFloat (n : Numeral) : Float := Float.ofBits (UInt64.ofNat (n.bits .double))

def toFloat32 (n : Numeral) : Float32 := Float32.ofBits (UInt32.ofNat (n.bits .single))

end Numeral

def readFloat? (s : String) : Option Float := (Numeral.ofText? s).map Numeral.toFloat

def readFloat32? (s : String) : Option Float32 := (Numeral.ofText? s).map Numeral.toFloat32

example : Numeral.ofText? "-.5e+3" = some (.finite true 5 2) := by decide
example : Numeral.ofText? "." = none ∧ Numeral.ofText? "1e" = none ∧ Numeral.ofText? " 1" = none := by
  decide
example : Numeral.ofText? "+InF" = some (.infinite false) := by decide

end Montage
