import Montage.Disk.Change

/-!
# Temporary files

A temporary file gets a name that is free: a start, a random mark and an
extension. The marks to try are given, since chance is not a function.
-/

namespace Montage.Disk

def temporaryName (start extension mark : String) : String :=
  start ++ "_" ++ mark ++ "." ++ extension

/-- Nothing is at the path, or nothing that a walk can reach. -/
def isFree (d : Disk) (p : Path) : Bool :=
  match d.locate false p with
  | .ok e => (d.node? e.route).isNone
  | .error _ => true

/-- The path of a directory from the root on. -/
def rooted (d : Disk) (directory : Path) : Path :=
  if directory.isAbsolute then directory else d.cwd.join directory

/-- Makes an empty temporary file in a directory, which is made too if it is
missing. The path of the new file is absolute, and a failure to make the file
tells it. -/
def createTemporary (d : Disk) (directory : Path) (start extension : String)
    (marks : List String) : Except SystemFault (Path × Disk) := do
  let d ← d.makeDirectories directory
  let base := d.rooted directory
  match (marks.map fun mark => base.join ⟨temporaryName start extension mark⟩).find? d.isFree with
  | some p =>
    match d.create p with
    | .ok d => return (p, d)
    | .error fault => throw (.located fault p)
  | none => throw (.located (.other "too many temporary files exist") base)

end Montage.Disk
