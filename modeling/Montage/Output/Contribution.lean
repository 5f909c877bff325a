import Montage.Output.Directive
import Montage.Output.Target

/-!
# What a profile contributes to a shared command

Of the directives of a profile the filters go into the shared graph, inputs are
dropped, and the rest are kept as options. A stream cannot be both copied and
split, so where the stream is split the codecs that copy are dropped.

A variant of an adaptive output is addressed by its number: its options get a
stream specifier with that number, and its bitrates are set later, together with
those of the other variants.
-/

namespace Montage

/-- Options that concern the video when they are used in a variant. -/
def videoOptions : List String :=
  ["-bf", "-b_strategy", "-bitrate", "-bufsize", "-crf", "-f", "-flags", "-force_key_frames", "-g",
   "-level", "-keyint", "-keyint_min", "-maxrate", "-minrate", "-pix_fmt", "-preset", "-profile",
   "-r", "-refs", "-s", "-sc_threshold", "-tune", "-x264opts", "-x264-params"]

def adjustOption (option : String) (index : Nat) : String :=
  if Text.endsWith ":v" option || Text.endsWith ":a" option then option ++ ":" ++ toString index
  else if videoOptions.contains option then option ++ ":v:" ++ toString index
  else option

/-- How a profile takes part in a shared command: with an output of its own, or
as a variant of an adaptive output. -/
inductive Part where
  | own
  | variant (index : Nat)
  deriving DecidableEq, Repr

namespace Part

def isVariant : Part → Bool
  | own => false
  | variant _ => true

def keep (part : Part) (argument : String) : String :=
  match part with
  | own => argument
  | variant index => if Text.startsWith "-" argument then adjustOption argument index else argument

/-- The codec option that stands for the older spellings in a variant. -/
def codecOption (part : Part) (option : String) : String :=
  match part with
  | own => option
  | variant _ =>
    if Text.startsWith "-codec:" option || Text.contains "-vcodec" option then "-c:v"
    else if Text.contains "-acodec" option then "-c:a"
    else option

end Part

/-- What one profile contributes to a shared command. -/
structure Contribution where
  /-- The filter of each kind of stream. -/
  filter : StreamKind → Option String
  /-- The bitrate of each kind of stream, for variants. -/
  bitrate : StreamKind → Option String
  options : List String
  /-- The file that is written. -/
  file : Option Path

namespace Directive

def isCopy : Directive → Bool
  | codec _ value => Text.contains "copy" value
  | _ => false

def options (part : Part) (dropCopy : Bool) : Directive → List String
  | filter .. | input _ | bitrate .. => []
  | codec option value =>
    if dropCopy && Text.contains "copy" value then []
    else [part.keep (part.codecOption option), value]
  | maxRate option value => [part.keep option, value]
  | other argument => [part.keep argument]

/-- The filter that a directive gives, without its double quotes. -/
def filterOf? (kind : StreamKind) : Directive → Option String
  | filter k _ value => if k = kind then some (Text.replaced "\"" "" value) else none
  | _ => none

def bitrateOf? (kind : StreamKind) : Directive → Option String
  | bitrate k _ value => if k = kind then some value else none
  | _ => none

def maxRateOf? : Directive → Option String
  | maxRate _ value => some value
  | _ => none

def last? (value? : Directive → Option String) (directives : List Directive) : Option String :=
  (directives.filterMap value?).getLast?

/-- The bitrate of a kind; the limit of the video stands for its bitrate. -/
def bitrate? (kind : StreamKind) (directives : List Directive) : Option String :=
  match last? (bitrateOf? kind) directives, kind with
  | some value, _ => some value
  | none, .video => last? maxRateOf? directives
  | none, .audio => none

end Directive

namespace Contribution

def ofDirectives (part : Part) (dropCopy : Bool) (directives : List Directive) : Contribution where
  filter kind := Directive.last? (Directive.filterOf? kind) directives
  bitrate kind := Directive.bitrate? kind directives
  options := directives.flatMap (Directive.options part dropCopy)
  file := none

def ofArguments (profile : String) (part : Part) (dropCopy : Bool) (arguments : List String) :
    Except Error Contribution :=
  (Directive.parse profile part.isVariant arguments).map (ofDirectives part dropCopy)

def isActive (c : Contribution) : Bool := !c.options.isEmpty

end Contribution

example : adjustOption "-c:a" 2 = "-c:a:2" ∧ adjustOption "-crf" 0 = "-crf:v:0" ∧
    adjustOption "-hls_time" 1 = "-hls_time" := by decide

end Montage
