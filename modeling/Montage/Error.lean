import Montage.Path
import Montage.Number.Reading
import Montage.Text.Quoted

/-!
# What can go wrong

An error is a cause, and one function gives its wording. The causes are grouped
by what they are about: the text of a command template, the filter graph, the
edit, the streams, the encoder process, the profiles, the configuration, the
probed media, other input, and the file system.

An error that wraps a failure of the system already shows that failure in its
own message. Where a whole chain of causes is printed, the failure therefore
appears once more at the end of it (`Error.chain`).
-/

namespace Montage

inductive SystemFault where
  | notFound
  | permissionDenied
  | fileExists
  | notADirectory
  | isADirectory
  | invalidArgument
  | directoryNotEmpty
  | tooManyLinks
  /-- The steps `.` and `..` keep their names. -/
  | busy
  | nameTooLong
  /-- No path of a system holds this character. -/
  | nulInPath
  /-- No argument of a program does either. -/
  | nulInArgument
  | emptyPath
  | notUtf8
  | other (text : String)
  /-- A failure that says where it happened. -/
  | located (fault : SystemFault) (path : Path)
  deriving DecidableEq, Repr, Inhabited

def SystemFault.message : SystemFault → String
  | notFound => "No such file or directory (os error 2)"
  | permissionDenied => "Permission denied (os error 13)"
  | fileExists => "File exists (os error 17)"
  | notADirectory => "Not a directory (os error 20)"
  | isADirectory => "Is a directory (os error 21)"
  | busy => "Device or resource busy (os error 16)"
  | invalidArgument => "Invalid argument (os error 22)"
  | nameTooLong => "File name too long (os error 36)"
  | directoryNotEmpty => "Directory not empty (os error 39)"
  | tooManyLinks => "Too many levels of symbolic links (os error 40)"
  | nulInPath => "file name contained an unexpected NUL byte"
  | nulInArgument => "nul byte found in provided data"
  | emptyPath => "cannot make an empty path absolute"
  | notUtf8 => "stream did not contain valid UTF-8"
  | other text => text
  | located fault path => fault.message ++ " at path " ++ Text.quoted path.text

/-- How a process ended, in the word that a wait gives: the low seven bits hold a
signal, or zero if the process ended by itself, the bit above them tells of a core
dump, and the next byte holds the exit code. -/
structure ExitStatus where
  word : UInt32
  deriving DecidableEq, Repr, Inhabited

namespace ExitStatus

def exited (code : Nat) : ExitStatus := ⟨UInt32.ofNat (code % 256 * 256)⟩

/-- The status of a word, which may be given with a sign. -/
def ofWait (word : Int) : ExitStatus := ⟨UInt32.ofInt word⟩

def isSuccess (s : ExitStatus) : Bool := s.word == 0

def signalName : Nat → String
  | 1 => " (SIGHUP)" | 2 => " (SIGINT)" | 3 => " (SIGQUIT)" | 4 => " (SIGILL)"
  | 5 => " (SIGTRAP)" | 6 => " (SIGABRT)" | 7 => " (SIGBUS)" | 8 => " (SIGFPE)"
  | 9 => " (SIGKILL)" | 10 => " (SIGUSR1)" | 11 => " (SIGSEGV)" | 12 => " (SIGUSR2)"
  | 13 => " (SIGPIPE)" | 14 => " (SIGALRM)" | 15 => " (SIGTERM)" | 16 => " (SIGSTKFLT)"
  | 17 => " (SIGCHLD)" | 18 => " (SIGCONT)" | 19 => " (SIGSTOP)" | 20 => " (SIGTSTP)"
  | 21 => " (SIGTTIN)" | 22 => " (SIGTTOU)" | 23 => " (SIGURG)" | 24 => " (SIGXCPU)"
  | 25 => " (SIGXFSZ)" | 26 => " (SIGVTALRM)" | 27 => " (SIGPROF)" | 28 => " (SIGWINCH)"
  | 29 => " (SIGIO)" | 30 => " (SIGPWR)" | 31 => " (SIGSYS)"
  | _ => ""

def signalText (signal : Nat) : String := toString signal ++ signalName signal

/-- The word as a number with a sign, and its digits to the base sixteen. -/
def wordText (word : Nat) : String :=
  let signed : Int := if word < UInt32.size / 2 then word else word - UInt32.size
  toString signed ++ " 0x" ++ String.ofList (Nat.toDigits 16 word)

/-- The wording of a status. A process that was stopped or continued has not ended,
but a word may say so. -/
def message (s : ExitStatus) : String :=
  let word := s.word.toNat
  let signal := word % 128
  let next := word / 256 % 256
  if signal = 0 then "exit status: " ++ toString next
  else if signal < 127 then
    "signal: " ++ signalText signal ++ if word / 128 % 2 = 1 then " (core dumped)" else ""
  else if word / 128 % 2 = 0 then "stopped (not terminated) by signal: " ++ signalText next
  else if word = 0xffff then "continued (WIFCONTINUED)"
  else "unrecognised wait status: " ++ wordText word

example : (ofWait 65280).message = "exit status: 255" := by decide
example : (ofWait 139).message = "signal: 11 (SIGSEGV) (core dumped)" := by decide
example : (ofWait 383).message = "stopped (not terminated) by signal: 1 (SIGHUP)" := by decide
example : (ofWait (-1)).message = "unrecognised wait status: -1 0xffffffff" := by decide

end ExitStatus

inductive TemplateFault where
  | unbalancedQuotes (line : String)
  | unbalancedCommand (profile line : String)
  | noCommand (profile : String)
  | noValue (option profile : String)
  deriving DecidableEq, Repr

inductive GraphFault where
  | nestedGraph (profile option : String)
  | adaptiveType (profile kind : String)
  deriving DecidableEq, Repr

inductive EditFault where
  | noClips
  | allTooShort (gap : String)
  | incompleteTriplet (count : Nat)
  | unknownTrack (track count : Nat)
  | severalTracks
  deriving DecidableEq, Repr

inductive StreamFault where
  | noPad
  | emptyOutputSize
  | emptyTrackSize (track : String)
  | noStream (path : Path)
  | noFrameSize
  deriving DecidableEq, Repr

inductive ProfileFault where
  | unknownKind (text : String)
  | invalidJson
  | missingKey (profile key : String)
  | invalidLoad (profile text : String)
  deriving DecidableEq, Repr

inductive ConfigFault where
  | invalidVariable (name text : String) (fault : IntegerFault)
  | emptyEncoder
  | invalidLoad (setting value : String)
  deriving DecidableEq, Repr

inductive ReportFault where
  | unreadable
  | invalidWidth (width : Int) (path : Path)
  | invalidHeight (height : Int) (path : Path)
  deriving DecidableEq, Repr

inductive InputFault where
  | noTrack
  | noProfile
  | noDelivery
  | noOutput
  | fewTracks (count : Nat)
  | noSeparator (text : String)
  | invalidSize (text : String)
  deriving DecidableEq, Repr

/-- Everything that an operation of the library reports. -/
inductive Error where
  | template (fault : TemplateFault)
  | unsupportedGraph (fault : GraphFault)
  | invalidEdit (fault : EditFault)
  | missingStream (fault : StreamFault)
  | failedCommand (command : String) (status : ExitStatus) (output : String)
  | notStarted (command : String) (fault : SystemFault)
  | notAwaited (command : String) (fault : SystemFault)
  | unknownProfile (id : String)
  | profileText (fault : ProfileFault)
  | configuration (fault : ConfigFault)
  | report (fault : ReportFault)
  | invalidInput (fault : InputFault)
  | system (fault : SystemFault)
  deriving DecidableEq, Repr

def TemplateFault.message : TemplateFault → String
  | unbalancedQuotes line => "unbalanced quotes in command line: " ++ line
  | unbalancedCommand profile line =>
    "profile '" ++ profile ++ "': Template error: unbalanced quotes in command line: " ++ line
  | noCommand profile => "profile '" ++ profile ++ "' has no ffmpeg.command template"
  | noValue option profile => "option '" ++ option ++ "' of profile '" ++ profile ++ "' has no value"

def GraphFault.message : GraphFault → String
  | nestedGraph profile option =>
    "profile '" ++ profile ++ "' uses " ++ option ++
      "; only simple -vf/-af filters can be combined with other outputs"
  | adaptiveType profile kind =>
    "profile '" ++ profile ++ "' requests adaptive type '" ++ kind ++ "', only HLS is supported"

def EditFault.message : EditFault → String
  | noClips => "no clips to edit"
  | allTooShort gap => "every clip is shorter than the " ++ gap ++ "s transition"
  | incompleteTriplet count =>
    "edit points come in (track, start, duration) triplets, got " ++ toString count ++ " values"
  | unknownTrack track count =>
    "edit references track " ++ toString track ++ " but only " ++ toString count ++
      " track(s) were given"
  | severalTracks => "If there is no editing, only one track can be specified"

def StreamFault.message : StreamFault → String
  | noPad => "at least one of video or audio input must be specified"
  | emptyOutputSize => "composite output dimension is empty"
  | emptyTrackSize track => track ++ " track has no layout dimension"
  | noStream path => "track has no audio or video stream: " ++ path.text
  | noFrameSize => "an output dimension is required to concatenate video"

def ProfileFault.message : ProfileFault → String
  | unknownKind text => "unknown media kind '" ++ text ++ "'"
  | invalidJson => "invalid profile JSON"
  | missingKey profile key => "profile '" ++ profile ++ "' is missing '" ++ key ++ "'"
  | invalidLoad profile text =>
    "profile '" ++ profile ++ "' has invalid jobload '" ++ text ++ "'"

def ConfigFault.message : ConfigFault → String
  | invalidVariable name text fault =>
    name ++ " has invalid value '" ++ text ++ "': " ++ fault.message
  | emptyEncoder => "ffmpeg path must not be empty"
  | invalidLoad setting value => setting ++ " must be a non-negative number, got " ++ value

def ReportFault.message : ReportFault → String
  | unreadable => "ffprobe streams output deserialization"
  | invalidWidth width path => "invalid width " ++ toString width ++ " in " ++ path.text
  | invalidHeight height path => "invalid height " ++ toString height ++ " in " ++ path.text

def InputFault.message : InputFault → String
  | noTrack => "At least one track must be specified"
  | noProfile => "Missing encoding profile(s)"
  | noDelivery => "at least one delivery encoding profile is required"
  | noOutput => "none of the encoding profiles produces an output"
  | fewTracks count => "concat needs at least two tracks, got " ++ toString count
  | noSeparator text => "expected WIDTHxHEIGHT, got '" ++ text ++ "'"
  | invalidSize text => "invalid dimension '" ++ text ++ "'"

namespace Error

def message : Error → String
  | template fault => "Template error: " ++ fault.message
  | unsupportedGraph fault => "Unsupported filter graph: " ++ fault.message
  | invalidEdit fault => "Invalid edit: " ++ fault.message
  | missingStream fault => "Missing stream: " ++ fault.message
  | failedCommand command status output =>
    "Command '" ++ command ++ "' failed with status " ++ status.message ++ ": " ++ output
  | notStarted command fault => "Failed to start command '" ++ command ++ "': " ++ fault.message
  | notAwaited command fault =>
    "Failed to wait for command '" ++ command ++ "': " ++ fault.message
  | unknownProfile id => "Encoding profile '" ++ id ++ "' not found"
  | profileText fault => "Could not parse encoding profiles: " ++ fault.message
  | configuration fault => "Invalid configuration: " ++ fault.message
  | report fault => "ffprobe error: " ++ fault.message
  | invalidInput fault => "Invalid input: " ++ fault.message
  | system fault => "IO error: " ++ fault.message

def source? : Error → Option SystemFault
  | notStarted _ fault | notAwaited _ fault | system fault => some fault
  | _ => none

def chain (e : Error) : List String := e.message :: (e.source?.map SystemFault.message).toList

end Error

end Montage
