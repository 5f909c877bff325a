import Montage.Error
import Montage.Text.Blank

/-!
# Kinds of media

A profile says which kind of media it takes and which it makes. The kind of a
source follows from the streams that it has.
-/

namespace Montage

inductive MediaKind where
  | audio
  | visual
  | audioVisual
  | stream
  | enhancedAudio
  | image
  | imageSequence
  | cover
  | nothing
  deriving DecidableEq, Repr, Inhabited

namespace MediaKind

def name : MediaKind → String
  | audio => "Audio"
  | visual => "Visual"
  | audioVisual => "AudioVisual"
  | stream => "Stream"
  | enhancedAudio => "EnhancedAudio"
  | image => "Image"
  | imageSequence => "ImageSequence"
  | cover => "Cover"
  | nothing => "Nothing"

def all : List MediaKind :=
  [audio, visual, audioVisual, stream, enhancedAudio, image, imageSequence, cover, nothing]

/-- The kind that a text names, in any case and with blanks around it. -/
def ofText (text : String) : Except Error MediaKind :=
  let word := Text.lowerAscii (Text.trimmed text)
  match all.find? fun kind => Text.lowerAscii kind.name == word with
  | some kind => .ok kind
  | none => .error (.profileText (.unknownKind word))

def ofStreams (video audio : Bool) : MediaKind :=
  match video, audio with
  | true, true => audioVisual
  | true, false => visual
  | false, true => MediaKind.audio
  | false, false => nothing

example : all.all fun kind => (ofText (" " ++ kind.name)).toOption == some kind := by decide

end MediaKind

end Montage
