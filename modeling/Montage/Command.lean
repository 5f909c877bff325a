import Montage.Path
import Montage.Text.Blank

/-!
# Compiled commands

A command is the program, its arguments, and one slot for each profile that it
serves. Slot `n` says which file profile `n` is expected to write; a profile
that writes no file keeps its slot, so slots never move.
-/

namespace Montage

/-- A profile's place in a command and the file expected there. -/
structure OutputSlot where
  profile : String
  file : Option Path
  deriving DecidableEq, Repr

/-- An encoder command ready to run. -/
structure Command where
  program : String
  arguments : List String := []
  slots : List OutputSlot := []
  /-- The suffixes of the variant segments of an adaptive command. -/
  segmentSuffixes : List String := []
  /-- The command writes an adaptive playlist. -/
  adaptive : Bool := false
  deriving DecidableEq, Repr

namespace Command

def append (c : Command) (arguments : List String) : Command :=
  { c with arguments := c.arguments ++ arguments }

def input (c : Command) (path : Path) : Command := c.append ["-i", path.text]

def filterComplex (c : Command) (graph : Option String) : Command :=
  match graph with
  | some graph => c.append ["-filter_complex", graph]
  | none => c

def expect (c : Command) (profile : String) (file : Option Path) : Command :=
  { c with slots := c.slots ++ [⟨profile, file⟩] }

def tokens (c : Command) : List String := c.program :: c.arguments

def outputs (c : Command) : List (Option Path) := c.slots.map (·.file)

def profiles (c : Command) : List String := c.slots.map (·.profile)

def position? (c : Command) (token : String) : Option Nat := c.tokens.idxOf? token

def valueOf? (c : Command) (option : String) : Option String :=
  (c.position? option).bind fun i => c.tokens[i + 1]?

/-- A token as it is shown: in single quotes if it is empty or holds a blank. -/
def shown (token : String) : String :=
  if token.isEmpty || token.toList.any Text.isBlank then "'" ++ token ++ "'" else token

def display (c : Command) : String := " ".intercalate (c.tokens.map shown)

end Command

end Montage
