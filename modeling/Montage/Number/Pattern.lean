import Montage.Number.Reading
import Montage.Number.Shortest

/-!
# Doubles as bit patterns

Sorting puts doubles in an order in which every bit pattern has a place. A
`Float` is not enough for that, since all NaNs are the same `Float`: a
`FloatPattern` keeps the sign that a NaN was written with.
-/

namespace Montage

/-- A double as its bits. -/
structure FloatPattern where
  bits : UInt64
  deriving DecidableEq, Repr

namespace FloatPattern

def ofFloat (x : Float) : FloatPattern := ⟨x.toBits⟩

def toFloat (p : FloatPattern) : Float := Float.ofBits p.bits

def ofText? (s : String) : Option FloatPattern :=
  (Numeral.ofText? s).map fun n => ⟨UInt64.ofNat (n.bits .double)⟩

/-- The place among all patterns: negative numbers below positive ones, `-0.0`
below `0.0`, and NaNs outside the infinities of their sign. -/
def rank (p : FloatPattern) : Int :=
  let bits := p.bits.toNat
  if bits < UInt64.size / 2 then bits else (UInt64.size / 2 : Nat) - 1 - bits

example : ofText? "-NaN" = some ⟨0xfff8000000000000⟩ ∧
    (⟨0xfff8000000000000⟩ : FloatPattern).rank < (⟨0xfff0000000000000⟩ : FloatPattern).rank ∧
    (⟨0x7ff0000000000000⟩ : FloatPattern).rank < (⟨0x7ff8000000000000⟩ : FloatPattern).rank := by
  decide

end FloatPattern

end Montage
