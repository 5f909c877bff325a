import Montage.Error

/-!
# Encoder processes

An encoder is whatever answers a call with a run. A run says all that can be
seen of a process from outside: whether it starts, what it writes, its messages,
whether they break off, and how it ends. So every statement about operations of
an engine speaks about all encoders at once.
-/

namespace Montage

/-- The start of an encoder. -/
structure Call where
  program : String
  arguments : List String
  deriving DecidableEq, Repr

/-- All that is seen of an encoder process. -/
structure EncoderRun where
  /-- Why the process does not start. -/
  startFailure : Option Error := none
  /-- The files that it writes, as far as they can be written. -/
  writes : List (Path × ByteArray) := []
  messages : List String := []
  /-- The processes of the engine are terminated while it runs. -/
  interrupted : Bool := false
  /-- Why its messages break off. -/
  streamFailure : Option Error := none
  /-- Why its end cannot be awaited. -/
  waitFailure : Option Error := none
  status : ExitStatus := .exited 0
  /-- It can be terminated from outside, so the engine keeps track of it. -/
  terminable : Bool := true

def EncoderRun.unstarted (fault : SystemFault) : EncoderRun :=
  { startFailure := some (.notStarted "ffmpeg (sidecar)" fault) }

/-- What answers a call with a run. -/
abbrev Encoder := Call → EncoderRun

def Encoder.idle : Encoder := fun _ => {}

end Montage
