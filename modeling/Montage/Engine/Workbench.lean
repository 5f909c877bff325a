import Montage.Disk.Temporary
import Montage.Encoder.ProcessRegistry
import Montage.Encoder.Process
import Montage.Engine.Compile

/-!
# The workbench of an engine

Operations read and change a workbench: the disk, the processes that run, and
what is still to come, that is the runs of encoders, fresh identifiers and marks
for temporary files. What was done is recorded.

A failure does not undo anything, so the workbench is kept with it.
-/

namespace Montage

inductive ProcessEvent where
  /-- Its messages are read while `live` processes are known. -/
  | watched (live : Nat)
  | killed
  | awaited
  deriving DecidableEq, Repr

/-- The state that operations work on. -/
structure Workbench where
  settings : Settings := {}
  disk : Disk := {}
  processes : Encoder.ProcessRegistry Unit := {}
  /-- The encoder that answers call `k`. -/
  encoders : Nat → Encoder := fun _ => Encoder.idle
  /-- Fresh identifiers. -/
  ids : Nat → String
  /-- How many identifiers were used. -/
  usedIds : Nat := 0
  /-- Marks to try in the names of temporary files. -/
  marks : List String
  calls : List Call := []
  events : List ProcessEvent := []

/-- What works on a workbench, and may fail. -/
abbrev Work := ExceptT Error (StateM Workbench)

namespace Workbench

def site (w : Workbench) : Site := ⟨w.settings, w.disk.cwd⟩

def freshIds (w : Workbench) : Nat → String := fun k => w.ids (w.usedIds + k)

def useIds (w : Workbench) (count : Nat) : Workbench := { w with usedIds := w.usedIds + count }

def record (w : Workbench) (event : ProcessEvent) : Workbench :=
  { w with events := w.events ++ [event] }

def writeIfPossible (d : Disk) (file : Path × ByteArray) : Disk :=
  match d.write file.1 file.2 with
  | .ok d => d
  | .error _ => d

def removeFile (d : Disk) (file : Path) : Disk :=
  if d.isFile file then
    match d.remove file with
    | .ok d => d
    | .error _ => d
  else d

/-- Removes the outputs of a failed run. -/
def removeFiles (d : Disk) (files : List Path) : Disk := files.foldl removeFile d

def close (w : Workbench) : Workbench := { w with processes := w.processes.terminateAll.2 }

end Workbench

def Work.removeFiles (files : List Path) : Work Unit :=
  modify fun w => { w with disk := Workbench.removeFiles w.disk files }

end Montage
