import Montage.Encoder.StreamDescription

/-!
# Transcripts of encoders

What an encoder process prints is cut into lines, at line feeds and also at the
carriage returns with which it overwrites its progress. Most lines are messages.
Lines that only add to a description are not: the streams of an input or an
output, the duration of an input, and which streams are mapped to which.

    Input #0, mov, from 'talk.mp4':
      Duration: 00:00:05.00, start: 0.000000
      Stream #0:0: Video: h264 (High), yuv420p, 640x360, 25 fps
    Stream mapping:
      Stream #0:0 -> #0:0 (copy)

A description goes on until the next one, or until the progress is told.

Once as many streams of outputs are described as were mapped, the streams that
go to standard output are known. If there are none, or if their raw pictures
come at different rates, that is said at the end.
-/

namespace Montage.Encoder

inductive Description where
  | nothing
  | input
  | output
  | mapping
  deriving DecidableEq, Repr

structure Transcript where
  messages : List String := []
  describes : Description := .nothing
  /-- The count of mapped streams. -/
  mapped : Nat := 0
  /-- The targets of the outputs. -/
  targets : List String := []
  /-- The described streams of the outputs. -/
  streams : List StreamDescription := []
  /-- All mapped streams are described. -/
  complete : Bool := false
  /-- What is to be said about those that go to standard output. -/
  remark : Option String := none
  /-- No further line can be read. -/
  ended : Bool := false

def isStandardOutput (target : String) : Bool := ["pipe", "pipe:", "pipe:1"].contains target

/-- The rates differ, or one of them is no rate at all. -/
def ratesDiffer : List Float32 → Bool
  | [] => false
  | first :: rates => (first :: rates).any fun rate => rate != first || rate == -1

/-- What is to be said about the streams that go to standard output. Only raw
pictures come one by one, so only their rates matter. -/
def remarkOn (streams : List StreamDescription) : Option String :=
  if streams.isEmpty then some "No streams found"
  else if ratesDiffer ((streams.filter (·.format == "rawvideo")).filterMap (·.rate)) then
    some ("Multiple output streams with different framerates are not supported when outputting "
      ++ "to stdout. Falling back to chunked mode.")
  else none

namespace Transcript

def say (t : Transcript) (message : String) : Transcript :=
  { t with messages := t.messages ++ [message] }

def printed (t : Transcript) : List StreamDescription :=
  t.streams.filter fun stream => (t.targets[stream.owner]?.map isStandardOutput).getD false

def settle (t : Transcript) : Transcript :=
  if t.complete || t.mapped = 0 || t.streams.length ≠ t.mapped then t
  else { t with complete := true, remark := remarkOn t.printed }

/-- Reads a line that may describe a stream. A stream of nothing ends the
transcript, and so does a line with a torn character. -/
def readStreamLine (t : Transcript) (line : String) : Transcript :=
  match describedStream line, t.describes with
  | .error _, _ => { t with ended := true }
  | .ok none, about =>
    { t with describes := if tellsProgress line then .nothing else about }.say line
  | .ok (some _), .input => t
  | .ok (some stream), .output => { t with streams := t.streams ++ [stream] }.settle
  | .ok (some _), _ => { t with ended := true }

def readDetail (t : Transcript) (line : String) : Transcript :=
  if tellsBuild line then t.say line
  else if tellsDuration line then if t.describes = .input then t else t.say line
  else if t.describes = .mapping && Text.contains "  Stream #" line then
    { t with mapped := t.mapped + 1 }.settle
  else t.readStreamLine line

def readLine (t : Transcript) (line : String) : Transcript :=
  if t.ended then t
  else if (inputNumber? line).isSome then { t with describes := .input }.say line
  else
    match outputTarget? line with
    | some target => { t with describes := .output, targets := t.targets ++ [target] }.say line
    | none =>
      if Text.contains "Stream mapping:" line then { t with describes := .mapping }.readDetail line
      else t.readDetail line

end Transcript

def printedLines (text : String) : List String :=
  (Text.split '\n' text).flatMap fun line => (Text.split '\r' line).map Text.trimmed

def messagesIn (text : String) : List String :=
  let t := (printedLines text).foldl Transcript.readLine {}
  t.messages ++ t.remark.toList

example : messagesIn "a\r b\n" = ["a", "b", ""] := by decide +kernel

end Montage.Encoder
