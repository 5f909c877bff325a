import Montage.Command
import Montage.Json.Printing
import Montage.Number.Fixed
import Montage.Probe.Streams
import Montage.Profile.Basic

/-!
# What commands print

Each kind of result has a plain form, one entry a line, and a JSON form.
-/

namespace Montage.CommandLine

def unlines (lines : List String) : String := String.join (lines.map (· ++ "\n"))

def printJson (value : Json) : String := value.pretty ++ "\n"

def textsJson (texts : List String) : Json := .array (texts.map Json.ofString)

def optionalJson (text : Option String) : Json :=
  match text with
  | some text => .ofString text
  | none => .null

def slotJson (file : Option Path) : Json := optionalJson (file.map (·.text))

def commandJson (c : Command) : Json :=
  .ofMembers ([("args", textsJson c.tokens), ("outputs", .array (c.outputs.map slotJson)),
    ("profiles", textsJson c.profiles)] ++
    (if c.segmentSuffixes.isEmpty then []
      else [("segment_suffixes", textsJson c.segmentSuffixes)]) ++
    [("adaptive", .bool c.adaptive)])

def printCommands (json : Bool) (commands : List Command) : String :=
  if json then printJson (.array (commands.map commandJson))
  else unlines (commands.map Command.display)

def printFiles (json : Bool) (files : List Path) : String :=
  if json then printJson (textsJson (files.map (·.text)))
  else unlines (files.map (·.text))

/-- Files by their slots; an empty slot is a hyphen. -/
def printSlots (json : Bool) (profiles : List String) (slots : List (Option Path)) : String :=
  if json then
    printJson (.array (slots.zipIdx.map fun (file, i) =>
      .ofMembers [("output", slotJson file), ("profile", optionalJson profiles[i]?)]))
  else unlines (slots.map fun file => (file.map (·.text)).getD "-")

def profileJson (p : Profile) : Json :=
  .ofMembers [("adaptive", optionalJson p.adaptiveType?), ("id", .ofString p.identifier),
    ("input", .ofString p.input.name), ("name", .ofString p.name),
    ("output", .ofString p.output.name), ("suffix", optionalJson p.suffix)]

/-- A profile on one line; the identifier fills at least 24 characters. -/
def profileLine (p : Profile) : String :=
  String.ofList (p.identifier.toList.rightpad 24 ' ') ++ " " ++ p.input.name ++ " -> " ++
    p.output.name ++ "  " ++ p.name

def printProfiles (json : Bool) (profiles : List Profile) : String :=
  if json then printJson (.array (profiles.map profileJson))
  else if profiles.isEmpty then
    "No encoding profiles loaded (use --profiles or COMPOSER_PROFILES)\n"
  else unlines (profiles.map profileLine)

def streamsJson (s : StreamFacts) : Json :=
  let natural (n : Nat) : Json := .number (toString n)
  .ofMembers [("has_video", .bool s.hasVideo), ("has_audio", .bool s.hasAudio),
    ("dimension", match s.size with
      | some size => .ofMembers [("width", natural size.width), ("height", natural size.height)]
      | none => .null),
    ("duration", (s.duration.map Json.ofFloat).getD .null),
    ("frame_rate", (s.frameRate.map Json.ofFloat32).getD .null)]

def printStreams (json : Bool) (s : StreamFacts) : String :=
  let answer (b : Bool) : String := if b then "yes" else "no"
  if json then printJson (streamsJson s)
  else
    unlines (["Video:      " ++ answer s.hasVideo, "Audio:      " ++ answer s.hasAudio] ++
      (s.size.map fun size =>
        "Dimension:  " ++ toString size.width ++ "x" ++ toString size.height).toList ++
      (s.frameRate.map fun rate => "Frame rate: " ++ (Binary.ofFloat32 rate).fixed 3).toList ++
      (s.duration.map fun seconds => "Duration:   " ++ (Binary.ofFloat seconds).fixed 3 ++ "s").toList)

end Montage.CommandLine
