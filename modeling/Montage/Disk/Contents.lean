import Montage.Disk.Walk

/-!
# Looking at a disk

What is at a path, the bytes or the text of a file, and the names in a
directory.
-/

namespace Montage.Disk

/-- The node that a path leads to, links followed. -/
def find? (d : Disk) (p : Path) : Option Node := (d.resolve p).toOption.map (·.2)

def holds (d : Disk) (p : Path) : Bool := (d.find? p).isSome

def isFile (d : Disk) (p : Path) : Bool :=
  match d.find? p with
  | some (.file _) => true
  | _ => false

def isDirectory (d : Disk) (p : Path) : Bool :=
  match d.find? p with
  | some .directory => true
  | _ => false

def read (d : Disk) (p : Path) : Except SystemFault ByteArray :=
  match d.refuses (.read p) with
  | some fault => .error fault
  | none => do
    match ← d.resolve p with
    | (_, .file bytes) => return bytes
    | (_, .sink) => return .empty
    | _ => throw .isADirectory

def readText (d : Disk) (p : Path) : Except SystemFault String := do
  match String.fromUTF8? (← d.read p) with
  | some text => return text
  | none => throw .notUtf8

def list (d : Disk) (p : Path) : Except SystemFault (List String) :=
  match d.refuses (.list p) with
  | some fault => .error fault
  | none => do
    match ← d.resolve p with
    | (route, .directory) =>
      return d.nodes.keys.filterMap fun r =>
        if r.dropLast = route ∧ r ≠ [] then r.getLast? else none
    | _ => throw .notADirectory

end Montage.Disk
