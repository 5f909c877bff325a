import Montage.Number.Pattern

/-!
# Clips

A clip is a range of one source: where it starts and how long it is. Its end is
computed, so moving the end changes the duration.

Times are not fixed to one kind of number. `ClipTime` says what the treatment of
clips needs of them: sums, differences, the comparison `<`, an order for
sorting, in which all times have a place, and a text for messages. Doubles have
one order for comparing and another for sorting, because a NaN compares with
nothing.
-/

namespace Montage

/-- The arithmetic of times. -/
class ClipTime (τ : Type) extends Add τ, Sub τ where
  /-- Comparison. -/
  less : τ → τ → Bool
  /-- The order in which times are sorted. -/
  sorts : τ → τ → Bool
  /-- How a message shows a time. -/
  text : τ → String

instance : ClipTime Rat where
  less a b := decide (a < b)
  sorts a b := decide (a ≤ b)
  text a := toString a

/-- Times in double precision, a NaN with its sign. -/
instance : ClipTime FloatPattern where
  add a b := .ofFloat (a.toFloat + b.toFloat)
  sub a b := .ofFloat (a.toFloat - b.toFloat)
  less a b := a.toFloat < b.toFloat
  sorts a b := decide (a.rank ≤ b.rank)
  text a := showFloat a.toFloat

instance : ClipTime Float where
  less a b := a < b
  sorts a b := decide ((FloatPattern.ofFloat a).rank ≤ (FloatPattern.ofFloat b).rank)
  text := showFloat

/-- A range of one source. -/
structure Clip (τ : Type) where
  source : Nat
  start : τ
  duration : τ
  deriving Repr, DecidableEq

namespace Clip

variable {τ : Type} [ClipTime τ]

def stop (c : Clip τ) : τ := c.start + c.duration

def withStop (c : Clip τ) (stop : τ) : Clip τ := { c with duration := stop - c.start }

/-- The order of clips by source and then by start. Starts that do not compare
have no order. -/
def compare? (a b : Clip Float) : Option Ordering :=
  match compare a.source b.source with
  | .eq =>
    if a.start < b.start then some .lt
    else if b.start < a.start then some .gt
    else if a.start == b.start then some .eq
    else none
  | order => some order

@[simp] theorem source_withStop (c : Clip τ) (stop : τ) : (c.withStop stop).source = c.source := rfl

@[simp] theorem start_withStop (c : Clip τ) (stop : τ) : (c.withStop stop).start = c.start := rfl

end Clip

end Montage
