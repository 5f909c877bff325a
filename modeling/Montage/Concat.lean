import Montage.Composite
import Montage.Number.Shortest
import Montage.Number.Fixed

/-!
# Concatenation

Inputs are joined end to end. If any of them has video, each video is scaled
into one frame, centred, and given the aspect ratio of the frame, so that the
joining filter meets equal streams; and if then any input has sound, an input
without sound gets a silent stream. If none has video, the sound alone is
joined.

The result is a command fragment as for a composite. Inputs with equal codecs
can be joined without a graph, from a list of files.
-/

namespace Montage

structure ConcatInput where
  path : Path
  hasVideo : Bool
  hasAudio : Bool
  deriving DecidableEq, Repr

namespace Concat

/-- A concatenation needs two inputs, and a stream in every input. -/
def validate (inputs : List ConcatInput) : Except Error Unit :=
  if inputs.length < 2 then .error (.invalidInput (.fewTracks inputs.length))
  else
    match inputs.find? fun i => !i.hasVideo && !i.hasAudio with
    | some input => .error (.missingStream (.noStream input.path))
    | none => .ok ()

def joinsVideo (inputs : List ConcatInput) : Bool := inputs.any (·.hasVideo)

def joinsAudio (inputs : List ConcatInput) : Bool := inputs.any (·.hasAudio)

def scaledPad (index : Nat) : Pad := .named (Pad.letterName index)

/-- The pad of an input's silence; silences are counted from one. -/
def silentPad (index : Nat) : Pad := .named ("silent" ++ toString (index + 1))

/-- The ratio of the sides of a frame, in single precision. -/
def aspect (size : FrameSize) : Float32 :=
  (UInt64.ofNat size.width).toFloat32 / (UInt64.ofNat size.height).toFloat32

def fitFilter (size : FrameSize) (rate : Option Float32) : String :=
  let w := toString size.width
  let h := toString size.height
  let scale := "min(" ++ w ++ "/iw\\," ++ h ++ "/ih)"
  let fps :=
    match rate with
    | some rate => if 0 < rate then "fps=fps=" ++ (Binary.ofFloat32 rate).fixed 6 ++ "," else ""
    | none => ""
  fps ++ "scale=iw*" ++ scale ++ ":ih*" ++ scale ++ ",pad=" ++ w ++ ":" ++ h ++
    ":(ow-iw)/2:(oh-ih)/2,setdar=" ++
    DecimalLayout.aspect.render .single (.ofFloat32 (aspect size))

def fitClauses (size : FrameSize) (rate : Option Float32) (inputs : List ConcatInput) :
    List Clause :=
  (List.range inputs.length).map fun i =>
    ⟨[.stream i 'v'], fitFilter size rate, [scaledPad i]⟩

def silentClauses (inputs : List ConcatInput) : List Clause :=
  inputs.zipIdx.filterMap fun (input, i) =>
    if input.hasAudio then none else some ⟨[], "aevalsrc=0::d=1", [silentPad i]⟩

/-- The pads of one input that the joining clause reads. -/
def joined (video audio : Bool) (input : ConcatInput) (index : Nat) : List Pad :=
  (if video then [scaledPad index] else []) ++
    if !audio then [] else if input.hasAudio then [.stream index 'a'] else [silentPad index]

def finalPads (video audio : Bool) : List Pad :=
  (if video then [.named "v"] else []) ++ (if audio then [.named "a"] else [])

def joinClause (inputs : List ConcatInput) : Clause :=
  let video := joinsVideo inputs
  let audio := joinsAudio inputs
  let flag (b : Bool) := if b then "1" else "0"
  { reads := inputs.zipIdx.flatMap fun (input, i) => joined video audio input i
    filter := "concat=n=" ++ toString inputs.length ++ ":v=" ++ flag video ++ ":a=" ++ flag audio
    writes := finalPads video audio }

def clauses (inputs : List ConcatInput) (size : Option FrameSize) (rate : Option Float32) :
    Except Error (List Clause) := do
  validate inputs
  let prepare ←
    if joinsVideo inputs then
      match size with
      | none => .error (.missingStream .noFrameSize)
      | some size =>
        .ok (fitClauses size rate inputs ++ if joinsAudio inputs then silentClauses inputs else [])
    else .ok []
  return prepare ++ [joinClause inputs]

def maps (inputs : List ConcatInput) : List String :=
  (finalPads (joinsVideo inputs) (joinsAudio inputs)).map Pad.text

def fragment (inputs : List ConcatInput) (size : Option FrameSize) (rate : Option Float32) :
    Except Error String := do
  let clauses ← clauses inputs size rate
  let sources := String.join (inputs.map fun input => "-i " ++ input.path.quoted ++ " ")
  let graph := ";".intercalate (clauses.map Clause.text)
  return sources ++ "-filter_complex " ++ graph ++ Composite.mapText (maps inputs)

/-- The entry of one input in a list of files. An apostrophe in the path closes
the quotes, stands escaped, and opens them again. -/
def listEntry (input : ConcatInput) : String :=
  "file '" ++ Text.replaced "'" "'\\''" input.path.text ++ "'\n"

/-- The list of files that are joined without a graph. -/
def fileList (inputs : List ConcatInput) : String := String.join (inputs.map listEntry)

end Concat

end Montage
