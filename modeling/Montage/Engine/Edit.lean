import Montage.Clip.EditGraph
import Montage.Clip.Sanitize
import Montage.Engine.Compile
import Montage.Output.FanOut

/-!
# Commands of edits

An edit cuts clips out of its inputs, joins them, and encodes the result with
several profiles in one command. Fades and the least gap between clips are the
whole seconds of the transition, of which 64 bits of milliseconds are kept.

A clip that starts within the transition is moved by half of it, in whole
seconds, so that sound and video stay together.
-/

namespace Montage

structure Triplet where
  source : Nat
  start : Nat
  duration : Nat
  deriving DecidableEq, Repr

/-- The triplets of a flat list; a rest of one or two values is left out. -/
def Triplet.ofFlat : List Nat → List Triplet
  | source :: start :: duration :: rest => ⟨source, start, duration⟩ :: ofFlat rest
  | _ => []

def wholeSeconds (ms : Nat) : Float := (UInt64.ofNat (ms / 1000)).toFloat

namespace Triplet

/-- How many seconds a clip is moved. -/
def shift (transition : Nat) (t : Triplet) : Nat :=
  if t.start < transition then transition / 2000 else 0

def toClip (transition : Nat) (t : Triplet) : Clip Float where
  source := t.source
  start := seconds t.start + (UInt64.ofNat (t.shift transition)).toFloat
  duration := seconds t.duration

end Triplet

def clipsOfEdits (inputs transition : Nat) (edits : List Nat) : Except Error (List (Clip Float)) :=
  if edits.length % 3 ≠ 0 then .error (.invalidEdit (.incompleteTriplet edits.length))
  else
    let triplets := Triplet.ofFlat edits
    match triplets.find? fun t => inputs ≤ t.source with
    | some t => .error (.invalidEdit (.unknownTrack t.source inputs))
    | none => Clip.sanitize (wholeSeconds transition) (triplets.map (·.toClip transition))

namespace EditRequest

/-- The clauses that edit the inputs, and where the edited stream is. -/
structure Cut where
  clauses : List Clause
  pads : StreamPads

def padsOf (request : EditRequest) (pad : StreamKind → Pad) : StreamPads where
  video := if request.video then some (pad .video) else none
  audio := if request.audio then some (pad .audio) else none

/-- Cuts and joins the inputs; without edits the first input is taken whole. -/
def cut (request : EditRequest) (transition : Nat) : Except Error Cut := do
  match request.edits with
  | none => return { clauses := [], pads := request.padsOf fun kind => .stream 0 kind.letter }
  | some edits =>
    let clips ← clipsOfEdits request.inputs.length transition edits
    return {
      clauses := Clip.editGraph clips (wholeSeconds transition) request.video request.audio
      pads := request.padsOf StreamKind.editPad }

/-- The transition of an edit in milliseconds, reduced to 64 bits. -/
def transitionIn (request : EditRequest) (settings : Settings) : Nat :=
  request.transition.getD settings.transition % Nat.pow 2 64

def parameters (site : Site) (first : Path) : Except Error Parameters := do
  let params ← MediaFile.describe site.cwd "video" first ∅
  let directory ← site.outputDirectory first
  return params.insertMany
    [("in.name", first.stem), ("out.dir", directory.text), ("out.name.base", first.stem),
     ("out.name", first.stem)]

/-- What makes up the command of an edit. -/
structure Plan where
  cut : Cut
  outputs : FanOut
  inputs : List Path

def Plan.graph (plan : Plan) : FilterGraph :=
  (FilterGraph.addAll {} (plan.cut.clauses.map Clause.text)).addAll
    (plan.outputs.clauses.map Clause.text)

def plan (site : Site) (ids : Nat → String) (request : EditRequest) (profiles : List Profile) :
    Except Error Plan := do
  match request.inputs with
  | [] => throw (.invalidInput .noTrack)
  | first :: others =>
    if request.edits.isNone && !others.isEmpty then throw (.invalidEdit .severalTracks)
    if profiles.isEmpty then throw (.invalidInput .noProfile)
    let cut ← request.cut (request.transitionIn site.settings)
    let outputs ← FanOut.build ids profiles (← parameters site first) cut.pads
    let inputs ← request.inputs.mapM (MediaFile.absolute site.cwd)
    return { cut, outputs, inputs }

def Plan.command (encoder : String) (plan : Plan) : Command :=
  let command : Command := { program := encoder, arguments := ["-nostats", "-hide_banner"] }
  let command := (plan.inputs.foldl Command.input command).filterComplex plan.graph.text?
  { command.append plan.outputs.arguments with
    slots := plan.outputs.slots
    segmentSuffixes := plan.outputs.segmentSuffixes
    adaptive := plan.outputs.adaptive }

def compile (site : Site) (ids : Nat → String) (request : EditRequest) (profiles : List Profile) :
    Except Error Command :=
  (request.plan site ids profiles).map (Plan.command site.settings.encoder)

end EditRequest

end Montage
