import Montage.Number.Reading

/-!
# JSON values

A value is kept as it was written: members of an object in their order, repeated
keys included, and a number as its text. What a number is worth depends on who
asks. A string may hold half of a surrogate pair, which stands for no text; that
only matters to those who read the string.

An integer without a point or exponent is exact within 64 bits. Every other
number is worth its first digits, as many as 64 bits hold, times a power of ten,
both steps in double precision. That is not always the nearest double; a number
that becomes infinite is none.
-/

namespace Montage

inductive Json where
  | null
  | bool (value : Bool)
  | number (text : String)
  | string (text : Option String)
  | array (elements : List Json)
  | object (members : List (Option String × Json))
  deriving Repr, Inhabited

namespace Json

def ofString (text : String) : Json := .string (some text)

/-- An object without broken keys. -/
def ofMembers (members : List (String × Json)) : Json :=
  .object (members.map fun (key, value) => (some key, value))

structure NumberParts where
  negative : Bool
  whole : List Char
  /-- The digits behind the point. -/
  fraction : List Char
  exponent : Int
  /-- Neither a point nor an exponent is written. -/
  isInteger : Bool

def NumberParts.ofText (text : String) : NumberParts :=
  let (negative, cs) :=
    match text.toList with
    | '-' :: cs => (true, cs)
    | cs => (false, cs)
  let whole := cs.takeWhile Char.isDigit
  let rest := cs.dropWhile Char.isDigit
  let (fraction, tail) :=
    match rest with
    | '.' :: cs => (cs.takeWhile Char.isDigit, cs.dropWhile Char.isDigit)
    | cs => ([], cs)
  { negative, whole, fraction
    exponent := (Numeral.exponent? tail).getD 0
    isInteger := rest.isEmpty }

/-- Takes in digits as long as the number fits into 64 bits; gives the number
and the digits that are left. -/
def absorb : Nat → List Char → Nat × List Char
  | n, [] => (n, [])
  | n, c :: cs =>
    let next := 10 * n + (c.toNat - '0'.toNat)
    if next ≤ natural64 then absorb next cs else (n, c :: cs)

def scaleTen : Nat → Float → Int → Option Float
  | 0, x, _ => some x
  | fuel + 1, x, exponent =>
    if exponent.natAbs ≤ 308 then
      let power := (Numeral.finite false 1 exponent.natAbs).toFloat
      if 0 ≤ exponent then
        if (x * power).isInf then none else some (x * power)
      else some (x / power)
    else if x == 0 then some x
    else if 0 ≤ exponent then none
    else scaleTen fuel (x / (Numeral.finite false 1 308).toFloat) (exponent + 308)

namespace NumberParts

/-- The integer that is written, if it fits into 64 bits without a sign. -/
def natural? (p : NumberParts) : Option Nat :=
  match absorb 0 p.whole with
  | (n, []) => if p.isInteger then some n else none
  | _ => none

def double? (p : NumberParts) : Option Float :=
  let (head, rest) := absorb 0 p.whole
  let (digits, left) := absorb head p.fraction
  let exponent := p.exponent + rest.length - (p.fraction.length - left.length : Nat)
  (scaleTen 5 (UInt64.ofNat digits).toFloat exponent).map fun x => if p.negative then -x else x

/-- The worth of a number in single precision; an integer is rounded once. -/
def single? (p : NumberParts) : Option Float32 :=
  match p.natural? with
  | some n =>
    if !p.negative then some (UInt64.ofNat n).toFloat32
    else if 0 < n ∧ n ≤ UInt64.size / 2 then some (-(UInt64.ofNat n).toFloat32)
    else some (-(UInt64.ofNat n).toFloat).toFloat32
  | none => p.double?.map Float.toFloat32

/-- The worth of a number as a 64-bit integer. Zero with a sign is none. -/
def integer? (p : NumberParts) : Option Int :=
  p.natural?.bind fun n =>
    if p.negative then if 0 < n ∧ n ≤ UInt64.size / 2 then some (-(n : Int)) else none
    else if n < UInt64.size / 2 then some n else none

end NumberParts

def text? : Json → Option String
  | string text => text
  | _ => none

def single? : Json → Option Float32
  | number text => (NumberParts.ofText text).single?
  | _ => none

def integer? : Json → Option Int
  | number text => (NumberParts.ofText text).integer?
  | _ => none

example : (number "12").integer? = some 12 ∧ (number "1.0").integer? = none := by decide

end Json

end Montage
