import Montage.Encoder.Announcement
import Montage.Encoder.Message
import Montage.Engine.Workbench

/-!
# Running a command

The encoder is started, its messages are read to their end, and its end is
awaited. The messages say which files it writes. If anything fails behind the
start, those files are removed before the failure is returned, and in every case
the process is no longer tracked.

An encoder whose messages break off is killed. What goes wrong with that is not
reported, since the broken messages already are.
-/

namespace Montage

/-- Options that every encoder gets in front: messages carry their level. -/
def messageOptions : List String := ["-loglevel", "level+info"]

namespace EncoderRun

def lines (run : EncoderRun) : List String := run.messages.filterMap Encoder.message?

def files (run : EncoderRun) : List Path := Encoder.collect run.lines

def ending (run : EncoderRun) : Except Error ExitStatus :=
  match run.streamFailure with
  | some e => .error e
  | none =>
    match run.waitFailure with
    | some e => .error e
    | none => .ok run.status

/-- What is done with a started run behind reading its messages. -/
def closing (run : EncoderRun) : List ProcessEvent :=
  if run.streamFailure.isSome then [.killed, .awaited] else [.awaited]

def result (run : EncoderRun) (command : Command) : Except Error (List Path) := do
  let status ← run.ending
  if status.isSuccess then return run.files
  else throw (.failedCommand command.display status ("\n".intercalate run.lines))

end EncoderRun

namespace Workbench

/-- The workbench while and after a started run is watched. -/
def watch (w : Workbench) (run : EncoderRun) : Workbench :=
  let w := { w with disk := run.writes.foldl writeIfPossible w.disk }
  let (id, processes) :=
    if run.terminable then (w.processes.register ()).map some id else (none, w.processes)
  let w := { w with processes }.record (.watched processes.size)
  let w := if run.interrupted then w.close else w
  let w := { w with events := w.events ++ run.closing }
  match id with
  | some id => { w with processes := w.processes.unregister id }
  | none => w

/-- Runs a command; gives the files that were written. -/
def run (w : Workbench) (command : Command) : Except Error (List Path) × Workbench :=
  let call : Call := ⟨command.program, messageOptions ++ command.arguments⟩
  let run := w.encoders w.calls.length call
  let w := { w with calls := w.calls ++ [call] }
  match run.startFailure with
  | some e => (.error e, w)
  | none =>
    let w := w.watch run
    match run.result command with
    | .ok files => (.ok files, w)
    | .error e => (.error e, { w with disk := removeFiles w.disk run.files })

end Workbench

def Work.runCommand (command : Command) : Work (List Path) :=
  ExceptT.mk fun w => w.run command

end Montage
