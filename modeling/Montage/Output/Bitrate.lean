import Montage.Graph.Pad
import Montage.Number.Reading
import Montage.Profile.Basic

/-!
# Bitrates of variants

The variants of an adaptive output need bitrates. If each variant gives its own,
these are used. Otherwise all are generated: they fall from a maximum to a
minimum by a constant factor. The limits are in kilobits, and may be set by the
profile of the group.
-/

namespace Montage

/-- The natural power of a number by repeated squaring; `fuel` is a bound on the
binary digits of the exponent. -/
def powerWithin : Nat → Float → Float → Nat → Float
  | 0, product, _, _ => product
  | fuel + 1, product, base, exponent =>
    let product := if exponent % 2 = 1 then product * base else product
    if exponent / 2 = 0 then product else powerWithin fuel product (base * base) (exponent / 2)

def naturalPower (base : Float) (exponent : Nat) : Float :=
  powerWithin (exponent + 1) 1 base exponent

structure BitrateLimits where
  least : Nat
  most : Nat
  deriving DecidableEq, Repr

/-- `count` bitrates from the greater to the smaller limit. -/
def distributeBitrates (count : Nat) (limits : BitrateLimits) : List String :=
  let least := (UInt64.ofNat (min limits.least limits.most)).toFloat
  let most := (UInt64.ofNat (max limits.least limits.most)).toFloat
  let factor :=
    if 1 < count then Float.pow (least / most) (1 / (UInt64.ofNat (count - 1)).toFloat) else 1
  (List.range count).map fun i =>
    toString (most * naturalPower factor i).round.toUInt64.toNat ++ "k"

namespace StreamKind

def limitsKey : StreamKind → String
  | video => "video.bitrates."
  | audio => "audio.bitrates."

def usualLimits : StreamKind → BitrateLimits
  | video => ⟨100, 4000⟩
  | audio => ⟨32, 160⟩

def limits (kind : StreamKind) (group : Profile) : BitrateLimits :=
  let limit (key : String) (usual : Nat) : Nat :=
    ((group.extensions[kind.limitsKey ++ key]?.bind fun text =>
      (readNatural natural32 (Text.trim text.toList)).toOption)).getD usual
  ⟨limit "mink" kind.usualLimits.least, limit "maxk" kind.usualLimits.most⟩

end StreamKind

def variantBitrates (kind : StreamKind) (group : Profile) (given : List (Option String)) :
    List String :=
  match given.mapM id with
  | some bitrates => bitrates
  | none => distributeBitrates given.length (kind.limits group)

theorem length_distributeBitrates (count : Nat) (limits : BitrateLimits) :
    (distributeBitrates count limits).length = count := by
  simp [distributeBitrates]

end Montage
