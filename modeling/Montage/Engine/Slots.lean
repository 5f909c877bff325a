import Montage.Command
import Montage.Disk.Contents

/-!
# Slots of a command

The files that a run wrote go to the slots of the profiles that expected them.
Paths may be spelled differently or lead to the same file through links. A slot
whose file was not written is empty. An adaptive command has no files of its
profiles; there every file that was written is returned.
-/

namespace Montage

/-- The two paths lead to the same file. -/
def Disk.sameFile (d : Disk) (p q : Path) : Bool :=
  p.same q ||
    match d.canonical p, d.canonical q with
    | .ok p, .ok q => p.same q
    | _, _ => false

def assignSlots (d : Disk) (command : Command) (written : List Path) : List (Option Path) :=
  if command.adaptive then written.map some
  else
    command.outputs.map fun expected =>
      expected.filter fun file => written.any fun p => d.sameFile p file

end Montage
