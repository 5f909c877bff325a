import Montage.Disk.Basic

/-!
# Where paths lead

Paths are walked step by step from the root or the working directory. A walk
ends in a directory, at a name in it that need not exist, or, if the path ends
with `.`, `..` or at the root, at the directory itself. A slash behind the last
name asks for a directory; what comes of that is up to whoever walks.

The walk follows links. `advance` walks until it arrives, fails, or stands at a
link; `walk` goes on from there with the steps of the link's target, a limited
number of times, so neither of them needs more than the structure of its
arguments.

A system limits the length of names and paths, and no path holds a NUL.
-/

namespace Montage

def nameLimit : Nat := 255

def pathLimit : Nat := 4095

/-- Why a path leads nowhere, whatever is on the disk. -/
def Path.fault? (p : Path) : Option SystemFault :=
  if p.text.toList.contains '\x00' then some .nulInPath
  else if p.text = "" then some .notFound
  else if pathLimit < p.text.utf8ByteSize then some .nameTooLong
  else none

structure Ending where
  directory : Route
  /-- The name at which the walk ends, if it is not at the directory itself. -/
  name : Option String
  /-- A slash stands behind the name. -/
  slash : Bool
  deriving DecidableEq, Repr

def Ending.route (e : Ending) : Route := e.directory ++ e.name.toList

namespace Disk

def lookup (d : Disk) (e : Ending) : Except SystemFault (Option Node) :=
  if nameLimit < (e.name.getD "").utf8ByteSize then .error .nameTooLong
  else .ok (d.node? e.route)

inductive Progress where
  | arrived (ending : Ending)
  | failed (fault : SystemFault)
  /-- At a link in the directory `here`, with steps left. -/
  | atLink (here : Route) (target : Path) (rest : List String)

/-- Walks from the directory `here`; a link at the end is followed if `follow`. -/
def advance (d : Disk) (follow : Bool) (here : Route) : List String → Progress
  | [] => .arrived ⟨here, none, false⟩
  | step :: rest =>
    if step = "" ∨ step = "." then d.advance follow here rest
    else if step = ".." then d.advance follow here.dropLast rest
    else if rest.all (· = "") then
      match d.node? (here ++ [step]), follow with
      | some (.link target), true =>
        if nameLimit < step.utf8ByteSize then .failed .nameTooLong else .atLink here target rest
      | _, _ => .arrived ⟨here, some step, !rest.isEmpty⟩
    else if nameLimit < step.utf8ByteSize then .failed .nameTooLong
    else
      match d.node? (here ++ [step]) with
      | some .directory => d.advance follow (here ++ [step]) rest
      | some (.link target) => .atLink here target rest
      | some _ => .failed .notADirectory
      | none => .failed .notFound

/-- Walks through at most `links` links. -/
def walk (d : Disk) (follow : Bool) : Nat → Route → List String → Except SystemFault Ending
  | links, here, steps =>
    match d.advance follow here steps with
    | .arrived ending => .ok ending
    | .failed fault => .error fault
    | .atLink here target rest =>
      match links with
      | 0 => .error .tooManyLinks
      | links + 1 =>
        d.walk follow links (if target.isAbsolute then [] else here) (target.pieces ++ rest)

def linkLimit : Nat := 40

/-- Walks along a path, however long it is. -/
def trace (d : Disk) (follow : Bool) (p : Path) : Except SystemFault Ending :=
  d.walk follow linkLimit (if p.isAbsolute then [] else d.workingDirectory) p.pieces

def locate (d : Disk) (follow : Bool) (p : Path) : Except SystemFault Ending :=
  match p.fault? with
  | some fault => .error fault
  | none => d.trace follow p

/-- The node at the end of a walk, which is a directory if a slash asks for one. -/
def arrive (d : Disk) (e : Ending) : Except SystemFault (Route × Node) := do
  match ← d.lookup e with
  | none => throw .notFound
  | some .directory => return (e.route, .directory)
  | some node =>
    if e.slash || e.name.isNone then throw .notADirectory else return (e.route, node)

def resolve (d : Disk) (p : Path) : Except SystemFault (Route × Node) := do
  d.arrive (← d.locate true p)

/-- The path without links, `.` and `..`, of something that exists. It may be
much shorter than the path that is given, so only its own length is limited. -/
def canonical (d : Disk) (p : Path) : Except SystemFault Path := do
  if p.text = "" then throw .notFound
  let (route, _) ← d.arrive (← d.trace true p)
  match (pathOf route).fault? with
  | some fault => throw fault
  | none => return pathOf route

end Disk

end Montage
