import Montage.Number.Fixed

/-!
# Times in command lines

Seconds are written with a fixed count of decimals: five where a template takes
a point in time, two inside filter clauses. Trim times have at least two digits
before the point.
-/

namespace Montage

def trimSeconds (seconds : Float) : String := (Binary.ofFloat seconds).fixedPadded 5 8

def imageSeconds (seconds : Float) : String := (Binary.ofFloat seconds).fixed 5

def clauseSeconds (seconds : Float) : String := (Binary.ofFloat seconds).fixed 2

end Montage
