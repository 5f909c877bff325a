import Montage.Concat
import Montage.Profile.Basic

/-!
# Requests

What an engine is asked to do. A job makes exactly one file with one profile.
The other operations make any number of files, one image for each time, one file
out of many, or one file for each of several profiles.
-/

namespace Montage

/-- An input file and the role in which templates know it. -/
structure Source where
  role : String
  path : Path
  deriving DecidableEq, Repr

inductive Job where
  | encode (source : Path)
  /-- Start and duration are milliseconds. -/
  | trim (source : Path) (start duration : Nat)
  | mux (video audio : Path)
  | watermark (source image : Path)
  | composite (request : Composite)
  deriving DecidableEq, Repr

structure ConcatRequest where
  inputs : List ConcatInput
  /-- The frame of the joined video. -/
  size : Option FrameSize := none
  rate : Option Float32 := none
  /-- The inputs have equal codecs and are joined from a list of files. -/
  sameCodec : Bool := false

structure EditRequest where
  inputs : List Path
  /-- Source, start and duration of each clip one behind the other, the times in
  milliseconds; without them the one input is encoded whole. -/
  edits : Option (List Nat) := none
  /-- The transition in milliseconds, if not the usual one. -/
  transition : Option Nat := none
  video : Bool := true
  audio : Bool := true
  deriving DecidableEq, Repr

inductive Operation where
  | process (sources : List Source) (profile : Profile) (properties : Parameters)
  | make (job : Job) (profile : Profile) (properties : Parameters)
  /-- The times are seconds. -/
  | images (source : Path) (times : List Float) (profile : Profile) (properties : Parameters)
  | concat (request : ConcatRequest) (profile : Profile) (properties : Parameters)
  | edit (request : EditRequest) (profiles : List Profile)

def Operation.multiEncode (source : Path) (profiles : List Profile) : Operation :=
  .edit { inputs := [source] } profiles

end Montage
