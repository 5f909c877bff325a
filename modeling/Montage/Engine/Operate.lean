import Montage.Engine.Edit
import Montage.Engine.Run
import Montage.Engine.Slots
import Montage.Engine.TrackList
import Montage.Playlist.Rename

/-!
# Operations of an engine

An operation compiles its commands and runs them. `Operation.dryRun` only
compiles; its commands are those that `Operation.run` runs, given the same
identifiers.

The result is a list of slots, and only an edit may leave some of them empty.

An operation that fails removes the files that its runs announced, so that
nothing half done is left behind.
-/

namespace Montage

namespace Work

def ofExcept {α : Type} (result : Except Error α) : Work α := ExceptT.mk (pure result)

/-- Does the second work if the first one fails, and fails with the first. -/
def onFailure {α : Type} (work : Work α) (clean : Work Unit) : Work α :=
  ExceptT.mk do
    match ← work.run with
    | .ok a => return .ok a
    | .error e =>
      let _ ← clean.run
      return .error e

/-- Compiles with fresh identifiers, of which it uses up `count`. -/
def compile {α : Type} (count : Nat) (commands : Site → (Nat → String) → Except Error α) :
    Work α := do
  let w ← get
  set (w.useIds count)
  ofExcept (commands w.site w.freshIds)

/-- The one file of a command; other counts of files fail, and the files go. -/
def single (command : Command) (files : List Path) : Work Path :=
  match files with
  | [file] => pure file
  | files => do
    removeFiles files
    throw (.failedCommand command.display (.exited 0)
      ("Encode expects one output file (" ++ toString files.length ++ " found)"))

def runSingle (command : Command) : Work Path := do single command (← runCommand command)

end Work

/-- Makes images one after the other; those that were made before a failure go. -/
def makeImages (source : Path) (p : Profile) (made : List Path) :
    List Parameters → Work (List Path)
  | [] => pure made
  | properties :: rest => do
    let image ← Work.onFailure
      (do
        let command ← Work.compile 1 fun site ids => compileEncode site (ids 0) source p properties
        Work.runSingle command)
      (Work.removeFiles made)
    makeImages source p (made ++ [image]) rest

namespace ConcatRequest

def prepareList (request : ConcatRequest) : Work (Option Path) := do
  Work.ofExcept (Concat.validate request.inputs)
  if request.sameCodec then return some (← TrackList.create request.inputs) else return none

/-- Compiles the command of a concatenation and does something with it, while
the list of tracks exists. -/
def withCommand {α : Type} (request : ConcatRequest) (p : Profile) (properties : Parameters)
    (use : Command → Option Path → Work α) : Work α := do
  let list ← request.prepareList
  TrackList.during list do
    let command ← Work.compile 1 fun site ids =>
      request.compile site (ids 0) list p properties
    use command list

end ConcatRequest

def renameVariants (command : Command) (files : List Path) : Work (List Path) := do
  let w ← get
  let (renamed, fault) := Playlist.renameSegments w.disk files command.segmentSuffixes
  set { w with disk := renamed.disk }
  match fault with
  | none => return renamed.files
  | some fault =>
    Work.removeFiles renamed.files
    throw (.system fault)

def nameFiles (command : Command) (files : List Path) : Work (List Path) :=
  if command.adaptive then renameVariants command files else pure files

namespace EditRequest

def run (request : EditRequest) (profiles : List Profile) : Work (List (Option Path)) := do
  let command ← Work.compile profiles.length fun site ids => request.compile site ids profiles
  let files ← nameFiles command (← Work.runCommand command)
  return assignSlots (← get).disk command files

end EditRequest

namespace Operation

def dryRun : Operation → Work (List Command)
  | process sources p properties => do
    return [← Work.compile 1 fun site ids => compile site (ids 0) sources p properties]
  | make job p properties => do
    return [← Work.compile 1 fun site ids => job.compile site (ids 0) p properties]
  | images source times p properties =>
    let all := imagesProperties properties times
    Work.compile all.length fun site ids => compileImages site ids source p all
  | concat request p properties =>
    request.withCommand p properties fun command _ => return [command]
  | edit request profiles => do
    return [← Work.compile profiles.length fun site ids => request.compile site ids profiles]

def run : Operation → Work (List (Option Path))
  | process sources p properties => do
    let command ← Work.compile 1 fun site ids => compile site (ids 0) sources p properties
    return (← Work.runCommand command).map some
  | make job p properties => do
    let command ← Work.compile 1 fun site ids => job.compile site (ids 0) p properties
    return [some (← Work.runSingle command)]
  | images source times p properties => do
    return (← makeImages source p [] (imagesProperties properties times)).map some
  | concat request p properties =>
    request.withCommand p properties fun command _ => return [some (← Work.runSingle command)]
  | edit request profiles => request.run profiles

end Operation

end Montage
