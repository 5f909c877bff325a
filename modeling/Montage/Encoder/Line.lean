import Montage.Number.Reading
import Montage.Text.Search

/-!
# Lines of encoders

Most of what an encoder prints is meant for people, but some lines have a form
that says what they are about: the build of the encoder, an input or an output,
a duration, or the progress.

    ffmpeg version 7.1 Copyright (c) 2000-2024
    Input #0, mov, from 'talk.mp4':
      Duration: 00:00:05.00, start: 0.000000
    Output #0, mp4, to 'short.mp4':
    frame=  10 fps=0.0 q=-1.0 size=  12KiB time=00:00:00.40 bitrate= 245.8kbits/s speed=1.5x

A level tag `[info]` may stand in front of each.
-/

namespace Montage.Encoder

/-- A line without its level and the blanks around it. -/
def plainLine (line : String) : String :=
  Text.trimmed ((Text.dropStart? "[info]" line).getD line)

def firstWord? (text : String) : Option String :=
  match (Text.trimStart text.toList).takeWhile (!Text.isBlank ·) with
  | [] => none
  | word => some (String.ofList word)

def before (c : Char) (text : String) : String := ((Text.cut? c text).map (·.1)).getD text

def number? (text : String) : Option Nat := (readNatural natural32 text.toList).toOption

/-- The number at the front of a numbered file; a comma may end it. -/
def fileNumber? (text : String) : Option Nat :=
  (firstWord? text).bind fun word => number? (before ',' word)

def inputNumber? (line : String) : Option Nat :=
  (Text.dropStart? "Input #" (plainLine line)).bind fileNumber?

def outputTarget? (line : String) : Option String := do
  let rest ← Text.dropStart? "Output #" (plainLine line)
  let _ ← fileNumber? rest
  return before '\'' (← Text.between? " to '" rest)

def tellsBuild (line : String) : Bool :=
  ["ffmpeg version ", "configuration: "].any (Text.startsWith · (plainLine line))

/-- Seconds, with minutes and hours before them between colons, or a count of
milliseconds or microseconds; a sign may stand in front. -/
def isTime (text : String) : Bool :=
  let text := Text.trimmed text
  let text := (Text.dropStart? "-" text).getD text
  match (Text.dropEnd? "us" text).orElse fun _ => Text.dropEnd? "ms" text with
  | some count => (readFloat? (Text.trimmed count)).isSome
  | none => ((Text.split ':' text).reverse.take 3).all fun part => (readFloat? part).isSome

def tellsDuration (line : String) : Bool :=
  match Text.dropStart? "Duration:" (plainLine line) with
  | some rest => isTime (before ',' (Text.trimmed rest))
  | none => false

/-- The value of a key such as `size=`: the first word behind it. -/
def valueOf? (key : String) (line : String) : Option String :=
  (Text.between? key line).bind firstWord?

def isKilobytes (text : String) : Bool :=
  match (Text.dropEnd? "KiB" text).orElse fun _ => Text.dropEnd? "kB" text with
  | some count => (number? count).isSome
  | none => Text.endsWith "N/A" text

def isBitrate (text : String) : Bool :=
  match Text.dropEnd? "kbits/s" text with
  | some count => (readFloat32? count).isSome
  | none => true

/-- The line tells the progress: at least size, time, bitrate and speed. -/
def tellsProgress (line : String) : Bool :=
  let line := plainLine line
  ((valueOf? "size=" line).map isKilobytes).getD false && (valueOf? "time=" line).isSome &&
    ((valueOf? "bitrate=" line).map isBitrate).getD false && (valueOf? "speed=" line).isSome

example : outputTarget? "Output #0 mp4 to 'pipe:1 to 'x':" = some "pipe:1" := by decide +kernel
example : tellsDuration "[info] Duration: 00:00:01 , start: 0" = true ∧
    tellsDuration "Duration: -5 ms" = true ∧ tellsDuration "Duration: 5s" = false := by
  decide +kernel
example : tellsProgress "size=N/A time=00:00:00.00 bitrate=N/A speed=N/A" = true ∧
    tellsProgress "size=4MB time=0 bitrate=1kbits/s speed=1x" = false := by decide +kernel

end Montage.Encoder
