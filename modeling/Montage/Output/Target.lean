import Montage.Path

/-!
# The target of a command

The last argument of a profile's command is where it writes to. Sinks, pipes
and options are no files.
-/

namespace Montage

def outputFile? (token : String) : Option Path :=
  if token = "NUL" ∨ token = "/dev/null" ∨ Text.startsWith "pipe:" token ∨
      Text.startsWith "-" token then none
  else some ⟨token⟩

def targetOf? (arguments : List String) : Option Path := arguments.getLast?.bind outputFile?

end Montage
