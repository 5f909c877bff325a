import Montage.Number.Binary

/-!
# Numbers with a fixed count of decimals

The exact value of a number, rounded to a count of decimals with a tie to the
even digit. A sign stands also before a zero that came from a negative number.
Infinities and NaN have names instead of digits, and padding treats a name like
digits: the zeros go between the sign and the name.
-/

namespace Montage

/-- The decimal digits of `n` with a point before the last `places` of them. -/
def pointed (n places : Nat) : String :=
  if places = 0 then toString n
  else toString (n / Nat.pow 10 places) ++ "." ++
    String.ofList ((toString (n % Nat.pow 10 places)).toList.leftpad places '0')

namespace Binary

/-- `-` for a negative number; NaN has no sign. -/
def sign : Binary → String
  | finite true _ _ | infinite true => "-"
  | _ => ""

def fixedMagnitude (places : Nat) : Binary → String
  | finite _ significand exponent =>
    let (up, down) := twoPow exponent
    pointed (roundHalfEven (significand * up * Nat.pow 10 places) down) places
  | infinite _ => "inf"
  | nan => "NaN"

def fixed (places : Nat) (x : Binary) : String := x.sign ++ x.fixedMagnitude places

/-- `places` decimals and as many zeros before the digits as make the text
`width` characters long. -/
def fixedPadded (places width : Nat) (x : Binary) : String :=
  x.sign ++ String.ofList
    ((x.fixedMagnitude places).toList.leftpad (width - x.sign.length) '0')

end Binary

example : (Binary.finite false 1 (-3)).fixed 2 = "0.12" := by decide +kernel
example : (Binary.finite false 3 (-3)).fixed 2 = "0.38" := by decide +kernel
example : (Binary.finite true 0 0).fixed 2 = "-0.00" := by decide +kernel
example : (Binary.infinite true).fixedPadded 5 8 = "-0000inf" := by decide

end Montage
