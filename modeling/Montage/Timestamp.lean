import Montage.Text.Search

/-!
# Timestamps

A time is a count of seconds since the beginning of 1970, and is written as year,
month, day, and hour, minute, second. Days are counted from the first of March,
so that the leap day is the last day of its year.
-/

namespace Montage

structure Day where
  year : Nat
  month : Nat
  day : Nat
  deriving DecidableEq, Repr

namespace Day

/-- The days from the first of March of the year 0 to the beginning of 1970. -/
def epoch : Nat := 719468

/-- The years in `days` days since the first of March of a year that can be
divided by 400. -/
def yearsIn (days : Nat) : Nat := (days - days / 1460 + days / 36524 - days / 146096) / 365

def ofEpoch (days : Nat) : Day :=
  let shifted := days + epoch
  let era := shifted / 146097
  let rest := shifted % 146097
  let years := yearsIn rest
  let ofYear := rest - (365 * years + years / 4 - years / 100)
  let month := (5 * ofYear + 2) / 153
  let day := ofYear - (153 * month + 2) / 5 + 1
  let late := month ≥ 10
  ⟨400 * era + years + (if late then 1 else 0), if late then month - 9 else month + 3, day⟩

end Day

def paddedNumber (width n : Nat) : String := String.ofList ((toString n).toList.leftpad width '0')

def timestamp (seconds : Nat) : String :=
  let day := Day.ofEpoch (seconds / 86400)
  paddedNumber 4 day.year ++ paddedNumber 2 day.month ++ paddedNumber 2 day.day ++ "_" ++
    paddedNumber 2 (seconds / 3600 % 24) ++ paddedNumber 2 (seconds / 60 % 60) ++
    paddedNumber 2 (seconds % 60)

example : timestamp 1704110400 = "20240101_120000" := by decide
example : timestamp 1709210096 = "20240229_123456" := by decide

end Montage
