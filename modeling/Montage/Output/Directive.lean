import Montage.Error
import Montage.Graph.Pad

/-!
# Directives of a profile

The arguments of a profile are read from the left as directives: an option with
its value, or a single argument that is passed on as it is. What an option means
is decided by how it begins, for arguments are text and there is no list of all
options.

An input has already been opened when profiles share it, so `-i` and the file
behind it are one directive, even where the file is missing. A graph of its own
cannot be part of a shared graph.

Bitrates are only taken out for the variants of an adaptive output.
-/

namespace Montage

inductive OptionRole where
  | nestedGraph
  | filter (kind : StreamKind)
  | input
  | codec
  | bitrate (kind : StreamKind)
  | maxRate
  | other
  deriving DecidableEq, Repr

def isCodecOption (option : String) : Bool :=
  Text.startsWith "-c:" option || Text.startsWith "-codec:" option ||
    Text.contains "-vcodec" option || Text.contains "-acodec" option

/-- What an option asks for; bitrates are ordinary options outside variants. -/
def OptionRole.of (variant : Bool) (option : String) : OptionRole :=
  let starts (start : String) : Bool := Text.startsWith start option
  if starts "-filter_complex" || starts "-lavfi" then nestedGraph
  else if starts "-vf" || starts "-filter:v" then filter .video
  else if starts "-af" || starts "-filter:a" then filter .audio
  else if option == "-i" then input
  else if isCodecOption option then codec
  else if !variant then other
  else if starts "-b:v" || option == "-vb" || option == "-bitrate" then bitrate .video
  else if starts "-b:a" || option == "-ab" then bitrate .audio
  else if starts "-maxrate" then maxRate
  else other

/-- An option with its value, or a single argument. -/
inductive Directive where
  | filter (kind : StreamKind) (option value : String)
  | input (file : Option String)
  | codec (option value : String)
  | bitrate (kind : StreamKind) (option value : String)
  | maxRate (option value : String)
  | other (argument : String)
  deriving DecidableEq, Repr

namespace Directive

def valued? (role : OptionRole) (option value : String) : Option Directive :=
  match role with
  | .filter kind => some (filter kind option value)
  | .codec => some (codec option value)
  | .bitrate kind => some (bitrate kind option value)
  | .maxRate => some (maxRate option value)
  | .nestedGraph | .input | .other => none

def parse (profile : String) (variant : Bool) : List String → Except Error (List Directive)
  | [] => .ok []
  | option :: rest =>
    match OptionRole.of variant option with
    | .nestedGraph => .error (.unsupportedGraph (.nestedGraph profile option))
    | .other => (parse profile variant rest).map (other option :: ·)
    | .input =>
      match rest with
      | [] => .ok [input none]
      | file :: rest => (parse profile variant rest).map (input (some file) :: ·)
    | role =>
      match rest with
      | [] => .error (.template (.noValue option profile))
      | value :: rest =>
        (parse profile variant rest).map ((valued? role option value).toList ++ ·)

def arguments : Directive → List String
  | filter _ option value | codec option value | bitrate _ option value | maxRate option value =>
    [option, value]
  | input file => "-i" :: file.toList
  | other argument => [argument]

example : (parse "p" false ["-vf", "a", "-i", "b", "-c:v", "copy", "x"]).toOption =
    some [.filter .video "-vf" "a", .input (some "b"), .codec "-c:v" "copy", .other "x"] := by
  decide

end Directive

end Montage
