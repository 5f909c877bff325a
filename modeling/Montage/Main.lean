import Montage.CommandLine.Program
import Montage.Identifier
import Montage.Timestamp

/-!
# The command line

The program looks at the files that its words and its environment name, runs on
a disk with these files, and then makes the changes of that disk on the machine.
All that it decides is decided in `Montage.CommandLine.run`.

No encoder and no prober are attached to it: it compiles commands for a shell to
run, and an operation that is not a dry run fails where the encoder would start.
-/

namespace Montage.Machine

def settingNames : List String :=
  ["COMPOSER_PROFILES", "COMPOSER_FFMPEG_PATH", "COMPOSER_TRANSITION_DURATION_MS",
   "COMPOSER_OUTPUT_DIR", "COMPOSER_TEMP_DIR", "TMPDIR"]

def environment : IO Environment := do
  let mut env : Environment := ∅
  for name in settingNames do
    if let some value ← IO.getEnv name then env := env.insert name value
  return env

def routeOf (path : String) : Route := (Text.split '/' path).filter (· != "")

/-- Puts a node and the directories above it onto a disk. -/
def place (d : Disk) (route : Route) (node : Node) : Disk :=
  let d := (List.range route.length).foldl (fun d i =>
    if 0 < i then d.put (route.take i) .directory else d) d
  if route.isEmpty then d else d.put route node

/-- Copies a file, or a directory with its files, from the machine to a disk. -/
def gather (d : Disk) (text : String) : IO Disk := do
  if text.isEmpty then return d
  let path := (← IO.currentDir) / text
  if !(← path.pathExists) then return d
  let path ← IO.FS.realPath path
  if ← path.isDir then
    let mut d := place d (routeOf path.toString) .directory
    for entry in ← path.readDir do
      let route := routeOf entry.path.toString
      if ← entry.path.isDir then d := place d route .directory
      else d := place d route (.file (← IO.FS.readBinFile entry.path))
    return d
  else return place d (routeOf path.toString) (.file (← IO.FS.readBinFile path))

/-- Makes the changes between two disks on the machine. -/
def carryOut (before after : Disk) : IO Unit := do
  for (route, node) in after.nodes.toList do
    match node, before.node? route with
    | .directory, none => IO.FS.createDirAll (Disk.pathOf route).text
    | .file bytes, some (.file old) =>
      if bytes.data != old.data then IO.FS.writeBinFile (Disk.pathOf route).text bytes
    | .file bytes, _ => IO.FS.writeBinFile (Disk.pathOf route).text bytes
    | _, _ => pure ()
  for (route, node) in before.nodes.toList do
    match node, after.node? route with
    | .file _, none => IO.FS.removeFile (Disk.pathOf route).text
    | _, _ => pure ()

/-- The seconds since the beginning of 1970, as the machine dates a new file. -/
def now : IO Nat := do
  let (_, file) ← IO.FS.createTempFile
  let seconds := (← file.metadata).modified.sec
  IO.FS.removeFile file
  return seconds.toNat

def mentioned (arguments : List String) (env : Environment) : List String :=
  let texts := arguments ++ env.values
  texts ++ texts.flatMap (Text.split ',') ++ texts.flatMap fun text =>
    ((Text.cut? '=' text).map (·.2)).toList

end Montage.Machine

open Montage in
def main (arguments : List String) : IO UInt32 := do
  let env ← Machine.environment
  let working := Machine.routeOf (← IO.FS.realPath (← IO.currentDir)).toString
  let bare := Machine.place { workingDirectory := working } working .directory
  let disk ← (Machine.mentioned arguments env).foldlM Machine.gather bare
  let start ← IO.rand 0 (Nat.pow 2 120)
  let marks ← (List.range 16).mapM fun _ => return Identifier.mark (← IO.rand 0 (Nat.pow 26 6 - 1))
  let ending := CommandLine.run
    { environment := env, timestamp := timestamp (← Machine.now), 
      prober := fun _ _ => .error .notFound }
    { disk, marks, ids := Identifier.fresh start, encoders := fun _ _ => .unstarted .notFound }
    arguments
  Machine.carryOut disk ending.disk
  IO.print ending.printed
  IO.eprint ending.complaint
  return UInt32.ofNat ending.code
