import Montage.Encoder.Line

/-!
# Descriptions of streams

A line about a stream consists of parts between commas, where a comma inside
brackets does not count.

    Stream #0:1[0x2](eng): Audio: aac (LC), 48000 Hz, stereo, fltp, 128 kb/s
    Stream #0:0: Video: h264 (High), yuv420p(tv, bt709), 640x360, 25 fps

The first part names the input or output, the stream, its kind and its format.
What the others say depends on the kind.

A part is as many bytes long as it has characters. So of a part with characters
of several bytes the end is missing, and if a character itself is cut, the line
cannot be read any further.
-/

namespace Montage.Encoder

structure StreamDescription where
  /-- The number of its input or output. -/
  owner : Nat
  format : String
  /-- Its pictures in a second. -/
  rate : Option Float32

/-- A part ends inside a character. -/
inductive TornPart where
  | tornPart

abbrev PartReading := OptionT (Except TornPart)

/-- The parts of a line. An empty part ends them, and so does a bracket that is
not closed. -/
def commaParts (inside : Bool) (part : List Char) : List Char → List (List Char)
  | [] => if inside || part.isEmpty then [] else [part.reverse]
  | c :: cs =>
    if inside then commaParts (c ≠ ')') (c :: part) cs
    else if c = ',' then
      if part.isEmpty then [] else part.reverse :: commaParts false [] cs
    else commaParts (c = '(') (c :: part) cs

def takeBytes? : Nat → List Char → Option (List Char)
  | 0, _ => some []
  | _ + 1, [] => none
  | n + 1, c :: cs =>
    if c.utf8Size ≤ n + 1 then (takeBytes? (n + 1 - c.utf8Size) cs).map (c :: ·) else none

def partText (part : List Char) : PartReading String :=
  match takeBytes? part.length part with
  | some cs => return String.ofList cs
  | none => throwThe TornPart .tornPart

def nextPart : StateT (List (List Char)) PartReading String := do
  match ← get with
  | [] => failure
  | part :: parts =>
    set parts
    partText part

/-- The number of a stream: an identifier in square brackets does not count, and
a language in round ones may follow. -/
def streamNumber? (text : String) : Option Nat :=
  let outside := (Text.split '[' text).flatMap (Text.split ']')
  let kept := outside.zipIdx.filterMap fun (piece, i) => if i % 2 = 0 then some piece else none
  number? (Text.trimmed (before '(' (String.join kept)))

def isSize (text : String) : Bool :=
  match Text.split 'x' text with
  | width :: height :: _ => (number? width).isSome && (number? height).isSome
  | _ => false

/-- The pictures in a second, from the first part that tells them. -/
def frameRate : List (List Char) → PartReading Float32
  | [] => failure
  | part :: parts => do
    let text ← partText part
    if Text.endsWith "fps" (Text.trimmed text) then
      OptionT.mk (pure ((firstWord? text).bind readFloat32?))
    else frameRate parts

def readSound : StateT (List (List Char)) PartReading Unit := do
  let rate ← nextPart
  guard ((firstWord? rate).bind number?).isSome
  let _channels ← nextPart

/-- The format and size of pictures, and, not necessarily next, their rate. -/
def readPictures : StateT (List (List Char)) PartReading Float32 := do
  let _format ← nextPart
  let size ← nextPart
  guard (((firstWord? size).map isSize).getD false)
  frameRate (← get)

def readStream : StateT (List (List Char)) PartReading StreamDescription := do
  match Text.split ':' (← nextPart) with
  | owner :: index :: kind :: format :: _ =>
    let some owner := number? owner | failure
    guard (streamNumber? index).isSome
    let format := before '(' (before ' ' (Text.trimmed format))
    match Text.trimmed kind with
    | "Audio" =>
      readSound
      return ⟨owner, format, none⟩
    | "Video" => return ⟨owner, format, some (← readPictures)⟩
    | _ => return ⟨owner, format, none⟩
  | _ => failure

def describedStream (line : String) : Except TornPart (Option StreamDescription) :=
  match Text.dropStart? "Stream #" (plainLine line) with
  | some rest => (readStream.run' (commaParts false [] rest.toList)).run
  | none => .ok none

example : (describedStream "Stream #1:0(eng): Audio: aac (a, b), 48000 Hz, stereo").map
    (·.map fun stream => (stream.owner, stream.format)) = .ok (some (1, "aac")) := by rfl
example : (describedStream "Stream #2:0[0x1](und): Subtitle: ass").map (·.map (·.owner)) =
    .ok (some 2) := by rfl
example : (describedStream "Stream #0:0: Video: h264, yuv420p").map (·.isSome) = .ok false := by
  rfl
example : (describedStream "Stream #0:[1: Data: none").map (·.isSome) = .ok false := by rfl
example : takeBytes? 3 ['a', 'é', 'b'] = some ['a', 'é'] ∧ takeBytes? 2 ['a', 'é'] = none := by
  decide +kernel

end Montage.Encoder
