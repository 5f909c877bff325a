import Montage.Frame
import Montage.Probe.Report

/-!
# Streams of a media file

What a report says about sound and pictures: whether there are any, the size and
frame rate of the first video stream, and the duration.
-/

namespace Montage

structure StreamFacts where
  hasVideo : Bool
  hasAudio : Bool
  /-- The size of the first video stream. -/
  size : Option FrameSize
  /-- The duration in seconds. -/
  duration : Option Float
  /-- The frame rate of the first video stream. -/
  frameRate : Option Float32

/-- How a prober ended, and what it printed. -/
structure ProbeRun where
  status : ExitStatus
  report : String
  messages : String
  deriving Repr

namespace Probe

def frameRate? (text : String) : Option Float32 := do
  let (num, den) ← Text.cut? '/' text
  let num ← readFloat32? (Text.trimmed num)
  let den ← readFloat32? (Text.trimmed den)
  if den == 0 || num ≤ 0 then none else some (num / den)

def side? (length : Int) : Option Nat :=
  if 0 ≤ length ∧ length ≤ natural32 then some length.toNat else none

def sizeOf (path : Path) (stream : ReportedStream) : Except Error (Option FrameSize) :=
  match stream.width, stream.height with
  | some w, some h =>
    match side? w, side? h with
    | none, _ => .error (.report (.invalidWidth w path))
    | some _, none => .error (.report (.invalidHeight h path))
    | some width, some height => .ok (some ⟨width, height⟩)
  | _, _ => .ok none

def factsOf (path : Path) (report : Report) : Except Error StreamFacts := do
  let video := report.streams.find? (·.kind == some "video")
  let size ←
    match video with
    | some stream => sizeOf path stream
    | none => pure none
  return {
    hasVideo := video.isSome
    hasAudio := report.streams.any (·.kind == some "audio")
    size
    duration := report.duration.bind readFloat?
    frameRate := video.bind fun stream => frameRate? stream.rate }

def title : String := "ffprobe (streams)"

def streams (path : Path) : Except SystemFault ProbeRun → Except Error StreamFacts
  | .error fault => .error (.notStarted title fault)
  | .ok run =>
    if run.status.isSuccess then
      match Report.ofText? run.report with
      | some report => factsOf path report
      | none => .error (.report .unreadable)
    else .error (.failedCommand title run.status run.messages)

end Probe

end Montage
