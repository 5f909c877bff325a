import Montage.Error
import Std.Data.TreeMap

/-!
# Files and directories

A disk maps routes to nodes: files with their bytes, directories, symbolic
links, and devices. A route is the list of names from the root, without links,
`.` and `..`; the root itself is always a directory. How a path leads to a route
is said in `Montage.Disk.Walk`.

A disk may refuse a step, and says with which failure. So whatever is proved
about a sequence of steps holds with a failure at any point of it.
-/

namespace Montage

/-- The names from the root to a node. -/
abbrev Route := List String

inductive Node where
  | file (bytes : ByteArray)
  | directory
  | link (target : Path)
  /-- A device that takes everything and gives nothing. -/
  | sink

inductive DiskStep where
  | read (path : Path)
  | create (path : Path)
  | write (path : Path)
  | remove (path : Path)
  | rename (old new : Path)
  | makeDirectory (path : Path)
  | list (path : Path)
  deriving DecidableEq, Repr

/-- Files and directories, and where relative paths start. -/
structure Disk where
  nodes : Std.TreeMap Route Node := ∅
  workingDirectory : Route := []
  /-- The failure of a step that does not take place. -/
  refuses : DiskStep → Option SystemFault := fun _ => none

namespace Disk

def node? (d : Disk) (route : Route) : Option Node :=
  if route = [] then some .directory else d.nodes[route]?

def pathOf (route : Route) : Path := ⟨"/" ++ "/".intercalate route⟩

def cwd (d : Disk) : Path := pathOf d.workingDirectory

end Disk

end Montage
