import Montage.Text.Search
import Montage.Text.Blank

/-!
# Encoder messages

An encoder talks about its work in lines, some behind a tag with a level. The
tag goes, and the first words of what is left say how much the line matters.

The first words are compared without regard to case. They are ASCII texts that
hold no `k` and do not end in `i`, the only letters into which characters
outside ASCII turn in lower case, so lowering the ASCII letters is enough.
-/

namespace Montage.Encoder

inductive LineClass where
  | trace
  | debug
  | info
  deriving DecidableEq, Repr

def traceStarts : List String :=
  ["ffmpeg version", "configuration", "lib", "size=", "frame=", "built with"]

def debugStarts : List String :=
  ["artist", "compatible_brands", "copyright", "creation_time", "description", "composer", "date",
   "duration", "encoder", "handler_name", "input #", "last message repeated", "major_brand",
   "metadata", "minor_version", "output #", "program", "side data:", "stream #",
   "stream mapping", "title", "video:", "[libx264 @ ", "press ["]

def classify (line : String) : LineClass :=
  let lower := Text.lowerAscii line
  if traceStarts.any (Text.startsWith · lower) then .trace
  else if Text.startsWith "[hls @ " line || debugStarts.any (Text.startsWith · lower) then .debug
  else .info

def levelTags : List String :=
  ["[info] ", "[warning] ", "[error] ", "[fatal] ", "[verbose] ", "[debug] "]

def withoutTag (line : String) : String :=
  (levelTags.findSome? fun tag => Text.dropStart? tag line).getD line

/-- What a raw line says; nothing if it says nothing. -/
def message? (raw : String) : Option String :=
  let line := withoutTag (Text.trimmed raw)
  if line.isEmpty then none else some line

example : classify "Frame= 1" = .trace ∧ classify "  Duration" = .info := by decide

end Montage.Encoder
