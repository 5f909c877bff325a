import Montage.Disk.Contents

/-!
# Changes of a disk

Making and writing files, removing, renaming and making directories. A step that
fails leaves the disk as it was. Removing and renaming work on a link itself,
writing on what the link leads to, and nothing is made where a link is.
-/

namespace Montage.Disk

def put (d : Disk) (route : Route) (node : Node) : Disk :=
  { d with nodes := d.nodes.insert route node }

def drop (d : Disk) (route : Route) : Disk := { d with nodes := d.nodes.erase route }

def create (d : Disk) (p : Path) : Except SystemFault Disk :=
  match d.refuses (.create p) with
  | some fault => .error fault
  | none => do
    let e ← d.locate false p
    if e.name.isNone || e.slash then throw .isADirectory
    match ← d.lookup e with
    | some _ => throw .fileExists
    | none => return d.put e.route (.file .empty)

def write (d : Disk) (p : Path) (bytes : ByteArray) : Except SystemFault Disk :=
  match d.refuses (.write p) with
  | some fault => .error fault
  | none => do
    let e ← d.locate true p
    if e.name.isNone || e.slash then throw .isADirectory
    match ← d.lookup e with
    | some .directory => throw .isADirectory
    | some .sink => return d
    | _ => return d.put e.route (.file bytes)

def remove (d : Disk) (p : Path) : Except SystemFault Disk :=
  match d.refuses (.remove p) with
  | some fault => .error fault
  | none => do
    let e ← d.locate false p
    match ← d.lookup e with
    | some .directory => throw .isADirectory
    | some _ => if e.slash then throw .notADirectory else return d.drop e.route
    | none => throw .notFound

/-- The nodes below the route `old`, and the one at it, moved to `new`. -/
def move (d : Disk) (old new : Route) : Disk :=
  let moved := d.nodes.toList.filterMap fun (r, node) =>
    (old.isPrefixOf? r).map fun rest => (new ++ rest, node)
  { d with nodes := (d.nodes.filter fun r _ => !old.isPrefixOf r).insertMany moved }

/-- The directory at a route holds something. -/
def isOccupied (d : Disk) (route : Route) : Bool :=
  d.nodes.keys.any fun r => route.isPrefixOf r && r != route

/-- Moves what is at one route to another one, in the place of a file or an empty
directory that is there. -/
def replace (d : Disk) (source target : Route) (node : Node) (there : Option Node) :
    Except SystemFault Disk :=
  match node, there with
  | .directory, there =>
    if source = target then .ok d
    else if source.isPrefixOf target then .error .invalidArgument
    else
      match there with
      | some .directory =>
        if d.isOccupied target then .error .directoryNotEmpty else .ok (d.move source target)
      | some _ => .error .notADirectory
      | none => .ok (d.move source target)
  | _, some .directory => .error .isADirectory
  | node, _ => .ok ((d.drop source).put target node)

/-- A slash behind one of the names asks for a directory, and the node is none. -/
def asksForDirectory (node : Node) (source target : Ending) : Bool :=
  match node with
  | .directory => false
  | _ => source.slash || target.slash

def rename (d : Disk) (old new : Path) : Except SystemFault Disk :=
  match d.refuses (.rename old new) with
  | some fault => .error fault
  | none => do
    let source ← d.locate false old
    let target ← d.locate false new
    if source.name.isNone || target.name.isNone then throw .busy
    match ← d.lookup source with
    | none => throw .notFound
    | some node =>
      let there ← d.lookup target
      if asksForDirectory node source target then throw .notADirectory
      d.replace source.route target.route node there

def makeDirectory (d : Disk) (p : Path) : Except SystemFault Disk :=
  match d.refuses (.makeDirectory p) with
  | some fault => .error fault
  | none => do
    let e ← d.locate false p
    match ← d.lookup e with
    | some _ => throw .fileExists
    | none => return d.put e.route .directory

def ensureDirectory (d : Disk) (p : Path) : Except SystemFault Disk :=
  match d.makeDirectory p with
  | .ok d => .ok d
  | .error fault => if d.isDirectory p then .ok d else .error fault

def makeEntry (d : Disk) (here : Route) (name : String) : Except SystemFault Disk :=
  let route := here ++ [name]
  match d.refuses (.makeDirectory (pathOf route)) with
  | some fault => .error fault
  | none =>
    if nameLimit < name.utf8ByteSize then .error .nameTooLong else .ok (d.put route .directory)

/-- Makes the directories that steps name one below the other, from the directory
`here` on, and those among them that are there already stay. -/
def makeChain (d : Disk) (here : Route) : List String → Except SystemFault Disk
  | [] => .ok d
  | step :: rest =>
    if step = "" ∨ step = "." then d.makeChain here rest
    else if step = ".." then d.makeChain here.dropLast rest
    else
      let next := here ++ [step]
      match d.node? next with
      | some .directory => d.makeChain next rest
      | some _ =>
        match d.resolve (pathOf next) with
        | .ok (route, .directory) => d.makeChain route rest
        | _ => .error .fileExists
      | none =>
        match d.makeEntry here step with
        | .ok d => d.makeChain next rest
        | .error fault => .error fault

def makeDirectories (d : Disk) (p : Path) : Except SystemFault Disk :=
  if p.components = [] then .ok d
  else
    match d.ensureDirectory p, p.parent? with
    | .error .notFound, some parent => do
      let d ← d.makeChain (if p.isAbsolute then [] else d.workingDirectory) parent.pieces
      d.ensureDirectory p
    | result, _ => result

end Montage.Disk
