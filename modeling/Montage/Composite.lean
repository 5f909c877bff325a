import Montage.Frame
import Montage.Graph.Clause

/-!
# Composites

A composite shows a lower track on a background, with an upper track and a
watermark over it if there are any. The result is a command fragment: text that
a profile's command line takes in before it is split into words. Input 0 is the
lower track; the fragment itself adds the upper track as input 1.

Sound is routed only where there are two tracks. Both are mixed if both have
sound, else the one that has it is taken.
-/

namespace Montage

/-- A path in a command fragment: in single quotes if it holds a blank. -/
def Path.quoted (p : Path) : String :=
  if p.text.toList.any Text.isBlank then "'" ++ p.text ++ "'" else p.text

structure Track where
  path : Path
  layout : Layout
  hasAudio : Bool
  deriving DecidableEq, Repr

structure Watermark where
  path : Path
  layout : Layout
  deriving DecidableEq, Repr

/-- What is shown where. -/
structure Composite where
  output : FrameSize
  lower : Track
  upper : Option Track
  watermark : Option Watermark
  /-- The colour around the lower track. -/
  background : String
  deriving DecidableEq, Repr

namespace Composite

def outPad : Pad := .named "out"

def tracksPad (c : Composite) : Pad := if c.watermark.isSome then .named "video" else outPad

/-- The filters that put the lower track on the background. -/
def lowerFilter (c : Composite) : String :=
  "scale=" ++ c.lower.layout.size.arguments ++ ",pad=" ++ c.output.arguments ++ ":" ++
    c.lower.layout.position ++ ":" ++ c.background

def trackClauses (c : Composite) : List Clause :=
  match c.upper with
  | none => [⟨[.named "in"], c.lowerFilter, [c.tracksPad]⟩]
  | some upper =>
    [⟨[.stream 0 'v'], c.lowerFilter, [.named "lower"]⟩,
     ⟨[.stream 1 'v'], "scale=" ++ upper.layout.size.arguments, [.named "upper"]⟩,
     ⟨[.named "lower", .named "upper"], "overlay=" ++ upper.layout.position, [c.tracksPad]⟩]

def watermarkClauses (c : Composite) : List Clause :=
  match c.watermark with
  | none => []
  | some mark =>
    [⟨[], "movie=" ++ mark.path.text, [.named "watermark"]⟩,
     ⟨[c.tracksPad, .named "watermark"], "overlay=" ++ mark.layout.position, [outPad]⟩]

def mixClauses (c : Composite) : List Clause :=
  match c.upper with
  | some upper =>
    if c.lower.hasAudio && upper.hasAudio then
      [⟨[.stream 0 'a', .stream 1 'a'], "amix=inputs=2", [.named "aout"]⟩]
    else []
  | none => []

def clauses (c : Composite) : List Clause :=
  c.trackClauses ++ c.watermarkClauses ++ c.mixClauses

def graph (c : Composite) : String := ";".intercalate (c.clauses.map Clause.text)

/-- The values of the `-map` options; a single track is left to the encoder. -/
def maps (c : Composite) : List String :=
  match c.upper with
  | none => []
  | some upper =>
    outPad.text :: match c.lower.hasAudio, upper.hasAudio with
      | true, true => ["[aout]"]
      | true, false => ["0:a"]
      | false, true => ["1:a"]
      | false, false => []

def mapText (values : List String) : String := String.join (values.map (" -map " ++ ·))

def emptyTrack? (c : Composite) : Option String :=
  if c.lower.layout.size.isEmpty then some "lower"
  else if c.upper.any (·.layout.size.isEmpty) then some "upper"
  else none

def fragment (c : Composite) : Except Error String :=
  if c.output.isEmpty then .error (.missingStream .emptyOutputSize)
  else
    match c.emptyTrack? with
    | some track => .error (.missingStream (.emptyTrackSize track))
    | none =>
      match c.upper with
      | none => .ok ("-filter:v " ++ c.graph)
      | some upper =>
        .ok ("-i " ++ upper.path.quoted ++ " -filter_complex " ++ c.graph ++ mapText c.maps)

end Composite

end Montage
