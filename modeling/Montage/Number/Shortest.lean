import Montage.Number.Binary

/-!
# The shortest decimal text of a number

Of all decimals that read back as a given number, the shortest text takes the
ones with the fewest digits, and of these the nearest. The reals that read back
as `m · 2 ^ q` are those up to half a step away on either side (a quarter step
below a power of two), with the ends where `m` is even. A grid of `n` digits
has a point among them only if one of the number's two neighbours on that grid
is among them, so only those two are tried, for one digit, two digits and so on.

Which of two equally near decimals is taken, and where the point or an exponent
is written, is a matter of the place where the number is shown; a
`DecimalLayout` says it.
-/

namespace Montage

structure Decimal where
  digits : Nat
  exponent : Int
  deriving DecidableEq, Repr

namespace Decimal

/-- The count of decimal digits of `n`, one for zero. -/
def width (n : Nat) : Nat := (toString n).length

end Decimal

def tenPow (e : Int) : Nat × Nat := (Nat.pow 10 e.toNat, Nat.pow 10 (-e).toNat)

/-- The reals that round to one number: the quotients `value / scale` with
`low ≤ value ≤ high`, the ends only if `closed`. -/
structure RoundingInterval where
  low : Nat
  middle : Nat
  high : Nat
  scale : Nat
  closed : Bool

/-- Which of two equally near neighbours on a grid is taken. -/
inductive TieRule where
  | greater
  /-- The one with an even last digit. -/
  | even
  deriving DecidableEq, Repr

/-- Whether the upper neighbour of a tie is taken, from the digits of the lower. -/
def TieRule.takesUpper (tie : TieRule) (digits : Nat) : Bool :=
  match tie with
  | greater => true
  | even => digits % 2 == 1

namespace RoundingInterval

def of (f : BinaryFormat) (significand : Nat) (exponent : Int) : RoundingInterval :=
  let (up, down) := twoPow exponent
  let lowStep :=
    if significand = Nat.pow 2 (f.precision - 1) ∧ f.minExponent < exponent then 1 else 2
  { low := (4 * significand - lowStep) * up
    middle := 4 * significand * up
    high := (4 * significand + 2) * up
    scale := 4 * down
    closed := significand % 2 == 0 }

def contains (i : RoundingInterval) (d : Decimal) : Bool :=
  let (up, down) := tenPow d.exponent
  let point := d.digits * up * i.scale
  if i.closed then i.low * down ≤ point && point ≤ i.high * down
  else i.low * down < point && point < i.high * down

/-- The decimal of the grid `10 ^ exponent` that lies in the interval and is
nearest to its middle. -/
def onGrid? (i : RoundingInterval) (tie : TieRule) (exponent : Int) : Option Decimal :=
  let (up, down) := tenPow exponent
  let step := up * i.scale
  let below := i.middle * down / step
  let rest := i.middle * down % step
  let floor : Decimal := ⟨below, exponent⟩
  let ceiling : Decimal := ⟨below + 1, exponent⟩
  match i.contains floor, i.contains ceiling with
  | true, true =>
    some (if step < 2 * rest ∨ (2 * rest = step ∧ tie.takesUpper below) then ceiling else floor)
  | true, false => some floor
  | false, true => some ceiling
  | false, false => none

/-- Tries the grids from `exponent` downwards. -/
def search (i : RoundingInterval) (tie : TieRule) : Nat → Int → Decimal
  | 0, exponent => ⟨i.middle / i.scale, exponent⟩
  | fuel + 1, exponent =>
    match i.onGrid? tie exponent with
    | some d => d
    | none => i.search tie fuel (exponent - 1)

end RoundingInterval

/-- The shortest decimal of the positive number `significand · 2 ^ exponent`. -/
def shortestDecimal (f : BinaryFormat) (tie : TieRule) (significand : Nat) (exponent : Int) :
    Decimal :=
  let interval := RoundingInterval.of f significand exponent
  -- a grid that is still coarser has only zero and numbers five times as great as neighbours
  let start : Int := (Nat.log2 significand + exponent) * 30103 / 100000 + 1
  interval.search tie 20 start

structure DecimalLayout where
  /-- The least and the greatest position of the point, counted from the first
  digit, that is written without an exponent; no bounds mean no exponent. -/
  plain : Option (Int × Int)
  /-- Whether an integer keeps `.0`. -/
  keepsPoint : Bool
  /-- Whether an exponent that is not negative has a sign. -/
  signsExponent : Bool
  tie : TieRule

namespace DecimalLayout

def plainText (layout : DecimalLayout) (d : Decimal) : String :=
  if 0 ≤ d.exponent then
    toString (d.digits * Nat.pow 10 d.exponent.toNat) ++ if layout.keepsPoint then ".0" else ""
  else
    let places := (-d.exponent).toNat
    toString (d.digits / Nat.pow 10 places) ++ "." ++
      String.ofList ((toString (d.digits % Nat.pow 10 places)).toList.leftpad places '0')

def exponentText (layout : DecimalLayout) (d : Decimal) : String :=
  let exponent := d.exponent + (Decimal.width d.digits - 1 : Nat)
  let mark := if layout.signsExponent && 0 ≤ exponent then "e+" else "e"
  match (toString d.digits).toList with
  | [] => ""
  | [c] => String.ofList [c] ++ mark ++ toString exponent
  | c :: cs => String.ofList (c :: '.' :: cs) ++ mark ++ toString exponent

def text (layout : DecimalLayout) (d : Decimal) : String :=
  let point := d.exponent + Decimal.width d.digits
  match layout.plain with
  | none => layout.plainText d
  | some (least, greatest) =>
    if least ≤ point && point ≤ greatest then layout.plainText d
    else layout.exponentText d

def render (layout : DecimalLayout) (f : BinaryFormat) : Binary → String
  | .nan => "NaN"
  | .infinite negative => (if negative then "-" else "") ++ "inf"
  | .finite negative significand exponent =>
    (if negative then "-" else "") ++
      if significand = 0 then (if layout.keepsPoint then "0.0" else "0")
      else layout.text (shortestDecimal f layout.tie significand exponent)

/-- Messages show numbers in full, an integer without a point. -/
def message : DecimalLayout := ⟨none, false, false, .greater⟩

/-- An aspect ratio always shows that it is no integer, and has an exponent
below a ten-thousandth and from `10 ^ 16` on. -/
def aspect : DecimalLayout := ⟨some (-3, 16), true, false, .greater⟩

def jsonDouble : DecimalLayout := ⟨some (-4, 16), true, true, .even⟩

def jsonSingle : DecimalLayout := ⟨some (-5, 13), true, true, .even⟩

end DecimalLayout

def showFloat (x : Float) : String := DecimalLayout.message.render .double (.ofFloat x)

def showFloat32 (x : Float32) : String := DecimalLayout.message.render .single (.ofFloat32 x)

example : showFloat 0.1 = "0.1" ∧ showFloat 2 = "2" := by decide +kernel
example : showFloat 1125899906842624.25 = "1125899906842624.3" ∧
    DecimalLayout.jsonDouble.render .double (.ofFloat 1125899906842624.25) = "1125899906842624.2" ∧
    DecimalLayout.jsonDouble.render .double (.ofFloat 1e16) = "1e+16" := by decide +kernel
example : DecimalLayout.aspect.render .single (.ofFloat32 (16 / 9)) = "1.7777778" := by
  decide +kernel

end Montage
