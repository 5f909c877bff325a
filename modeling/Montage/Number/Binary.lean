/-!
# Binary interchange formats

A floating-point number is read as an exact value, `±significand · 2 ^ exponent`,
and an exact quotient is brought back to the nearest number of a format, ties
to the even significand. All the decimal texts of this library are made from,
or into, such exact values, so no text depends on how a machine prints.

The bit pattern of a finite number counts the numbers of the format in
increasing order, subnormal ones first. So `nearest` only has to find the
exponent; rounding up to the next power of two, or to infinity, is a carry.
-/

namespace Montage

/-- A binary format: the bits of a significand, its leading bit included, and
the bits of the exponent field. -/
structure BinaryFormat where
  precision : Nat
  exponentBits : Nat

namespace BinaryFormat

def double : BinaryFormat := ⟨53, 11⟩

def single : BinaryFormat := ⟨24, 8⟩

/-- The exponent of the least significant bit of a subnormal number. -/
def minExponent (f : BinaryFormat) : Int := 3 - Nat.pow 2 (f.exponentBits - 1) - f.precision

def topField (f : BinaryFormat) : Nat := Nat.pow 2 f.exponentBits - 1

example : double.minExponent = -1074 ∧ single.minExponent = -149 := by decide

end BinaryFormat

inductive Binary where
  | finite (negative : Bool) (significand : Nat) (exponent : Int)
  | infinite (negative : Bool)
  | nan
  deriving DecidableEq, Repr

/-- The quotient rounded to the nearest integer, a tie to the even one. -/
def roundHalfEven (num den : Nat) : Nat :=
  let q := num / den
  let r := num % den
  if 2 * r < den || (2 * r == den && q % 2 == 0) then q else q + 1

def twoPow (e : Int) : Nat × Nat := (Nat.pow 2 e.toNat, Nat.pow 2 (-e).toNat)

namespace BinaryFormat

def decode (f : BinaryFormat) (bits : Nat) : Binary :=
  let hidden := Nat.pow 2 (f.precision - 1)
  let negative := bits / (hidden * Nat.pow 2 f.exponentBits) % 2 == 1
  let field := bits / hidden % Nat.pow 2 f.exponentBits
  let fraction := bits % hidden
  if field = f.topField then
    if fraction = 0 then .infinite negative else .nan
  else if field = 0 then .finite negative fraction f.minExponent
  else .finite negative (hidden + fraction) (f.minExponent + (field - 1 : Nat))

/-- The bit pattern without a sign of the number nearest to `num / den`. -/
def nearestMagnitude (f : BinaryFormat) (num den : Nat) : Nat :=
  if num = 0 then 0
  else
    -- the quotient is at least `2 ^ below` and less than `2 ^ (below + 2)`
    let below : Int := (Nat.log2 num : Int) - Nat.log2 den - 1
    let (n1, d1) := twoPow (below + 1)
    let leading : Int := if n1 * den ≤ num * d1 then below + 1 else below
    let exponent := max f.minExponent (leading - (f.precision - 1))
    let (up, down) := twoPow exponent
    let significand := roundHalfEven (num * down) (den * up)
    let counted := (exponent - f.minExponent).toNat * Nat.pow 2 (f.precision - 1) + significand
    min counted (f.topField * Nat.pow 2 (f.precision - 1))

def nearest (f : BinaryFormat) (negative : Bool) (num den : Nat) : Nat :=
  f.nearestMagnitude num den
    + if negative then Nat.pow 2 (f.precision - 1 + f.exponentBits) else 0

def infinity (f : BinaryFormat) (negative : Bool) : Nat :=
  f.topField * Nat.pow 2 (f.precision - 1)
    + if negative then Nat.pow 2 (f.precision - 1 + f.exponentBits) else 0

def quietNaN (f : BinaryFormat) (negative : Bool) : Nat :=
  f.infinity negative + Nat.pow 2 (f.precision - 2)

example : double.nearest false 1 10 = 0x3fb999999999999a := by decide
example : single.nearest true 30000 1001 = 0xc1efc29f := by decide
example : single.nearest false (2 ^ 128) 1 = single.infinity false := by decide
example : double.nearest false 1 (2 ^ 1075) = 0 ∧ double.nearest false 3 (2 ^ 1075) = 2 := by
  decide +kernel

end BinaryFormat

def Binary.ofFloat (x : Float) : Binary := BinaryFormat.double.decode x.toBits.toNat

def Binary.ofFloat32 (x : Float32) : Binary := BinaryFormat.single.decode x.toBits.toNat

end Montage
