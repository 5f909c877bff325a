import Montage.Command
import Montage.Engine.Request
import Montage.MediaFile
import Montage.Output.Target
import Montage.Settings
import Montage.Template.Arguments
import Montage.Template.Fragment
import Montage.Timing
import Montage.Words

/-!
# Commands of one profile

A profile's command line is compiled in three steps, in this order: command
fragments are put in place, the line is split into words, and the words are
resolved. So fragments can hold several words and values cannot.

The name of an output is made unique by a fresh identifier.
-/

namespace Montage

/-- Where commands are compiled: the settings, and the working directory that
makes paths absolute. -/
structure Site where
  settings : Settings
  cwd : Path

namespace Site

def outputDirectory (site : Site) (input : Path) : Except Error Path :=
  match site.settings.outputDirectory with
  | some directory => .ok directory
  | none => (MediaFile.absolute site.cwd input).map fun p => p.parent?.getD ⟨""⟩

end Site

namespace Source

/-- The source that names the output: the video, else the sound, else the first. -/
def primary? (sources : List Source) : Option Source :=
  sources.find? (·.role == "video") <|> sources.find? (·.role == "audio") <|> sources.head?

def describeAll (cwd : Path) (sources : List Source) (params : Parameters) :
    Except Error Parameters :=
  sources.foldlM (fun params s => MediaFile.describe cwd s.role s.path params) params

end Source

namespace Profile

def withSuffixes (p : Profile) (params : Parameters) : Parameters :=
  let params :=
    match p.suffix with
    | some suffix => params.insert "out.suffix" (Template.substitute params suffix)
    | none => params
  p.taggedSuffixes.toList.foldl (fun params (tag, suffix) =>
    params.insert ("out.suffix." ++ tag) (Template.substitute params suffix)) params

/-- The words of the command line with the fragments in place. -/
def words (p : Profile) (params : Parameters) : Except Error (List String) := do
  let line := Template.expand params (← p.command)
  match Words.ofLine? line with
  | some words => return words
  | none => throw (.template (.unbalancedCommand p.identifier line))

def arguments (p : Profile) (params : Parameters) : Except Error (List String) :=
  (p.words params).map (Template.arguments params)

end Profile

/-- The parameters of a profile's command, where `id` makes the output's name
unique. -/
def parametersFor (site : Site) (id : String) (sources : List Source) (p : Profile)
    (properties : Parameters) : Except Error Parameters := do
  match Source.primary? sources with
  | none => throw (.invalidInput .noTrack)
  | some primary =>
    let params ← Source.describeAll site.cwd sources properties
    let params := params.insert "out.dir" (← site.outputDirectory primary.path).text
    let params := params.insert "out.name" (primary.path.stem ++ "_" ++ id)
    return p.withSuffixes params

def compile (site : Site) (id : String) (sources : List Source) (p : Profile)
    (properties : Parameters) : Except Error Command := do
  let arguments ← p.arguments (← parametersFor site id sources p properties)
  let command : Command := { program := site.settings.encoder }
  return ((command.append ["-nostdin", "-nostats"]).append arguments).expect p.identifier
    (targetOf? arguments)

def seconds (ms : Nat) : Float := (UInt64.ofNat ms).toFloat / 1000

def compileEncode (site : Site) (id : String) (source : Path) (p : Profile)
    (properties : Parameters) : Except Error Command :=
  compile site id [⟨"video", source⟩] p properties

namespace Job

def sources : Job → List Source
  | encode source | trim source .. | watermark source _ => [⟨"video", source⟩]
  | mux video audio => [⟨"video", video⟩, ⟨"audio", audio⟩]
  | composite request =>
    ⟨"video", request.lower.path⟩ ::
      match request.upper with
      | some upper => [⟨"audio", upper.path⟩]
      | none => []

def properties (cwd : Path) (params : Parameters) : Job → Except Error Parameters
  | encode _ | mux .. => .ok params
  | trim _ start duration =>
    .ok ((params.insert "trim.start" (trimSeconds (seconds start))).insert "trim.duration"
      (trimSeconds (seconds duration)))
  | watermark _ image => do
    return params.insert "watermark" (← MediaFile.absolute cwd image).text
  | composite request => do
    return params.insert (Template.fragmentKey "compositeCommand") (← request.fragment)

def compile (site : Site) (id : String) (job : Job) (p : Profile) (params : Parameters) :
    Except Error Command := do
  Montage.compile site id job.sources p (← job.properties site.cwd params)

end Job

def imageProperties (properties : Parameters) (time : Float) : Parameters :=
  properties.insert "time" (imageSeconds time)

/-- The properties of all images; without times there is one image. -/
def imagesProperties (properties : Parameters) (times : List Float) : List Parameters :=
  if times.isEmpty then [properties] else times.map (imageProperties properties)

def compileImages (site : Site) (ids : Nat → String) (source : Path) (p : Profile) :
    List Parameters → Except Error (List Command)
  | [] => .ok []
  | properties :: rest => do
    let command ← compileEncode site (ids 0) source p properties
    return command :: (← compileImages site (fun k => ids (k + 1)) source p rest)

namespace ConcatRequest

/-- The command fragment of a concatenation; `list` is the list of files that is
read where the codecs are equal. -/
def fragment (request : ConcatRequest) (list : Option Path) : Except Error String :=
  match list with
  | some list => .ok ("-f concat -safe 0 -i " ++ list.quoted)
  | none => Concat.fragment request.inputs request.size request.rate

def compile (site : Site) (id : String) (request : ConcatRequest) (list : Option Path)
    (p : Profile) (properties : Parameters) : Except Error Command := do
  Concat.validate request.inputs
  let fragment ← request.fragment list
  match request.inputs with
  | [] => throw (.invalidInput .noTrack)
  | first :: _ =>
    compileEncode site id first.path p
      (properties.insert (Template.fragmentKey "concatCommand") fragment)

end ConcatRequest

end Montage
