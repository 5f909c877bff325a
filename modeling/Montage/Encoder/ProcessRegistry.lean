import Std.Data.TreeMap

/-!
# Running processes

A registry knows the processes that run, by numbers that are never given twice.
Shutting down takes all of them out, in the order of their numbers, and each is
terminated once.
-/

namespace Montage.Encoder

/-- The processes that run; `τ` is what it takes to terminate one. -/
structure ProcessRegistry (τ : Type) where
  next : Nat := 0
  live : Std.TreeMap Nat τ := ∅

namespace ProcessRegistry

variable {τ : Type}

def register (r : ProcessRegistry τ) (process : τ) : Nat × ProcessRegistry τ :=
  (r.next, ⟨r.next + 1, r.live.insert r.next process⟩)

def unregister (r : ProcessRegistry τ) (id : Nat) : ProcessRegistry τ :=
  { r with live := r.live.erase id }

/-- Takes all processes out and gives those that are to be terminated. -/
def terminateAll (r : ProcessRegistry τ) : List τ × ProcessRegistry τ :=
  (r.live.values, { r with live := ∅ })

def size (r : ProcessRegistry τ) : Nat := r.live.size

def inspect (r : ProcessRegistry τ) : String :=
  "ProcessRegistry \x7b live: " ++ toString r.size ++ " \x7d"

end ProcessRegistry

end Montage.Encoder
