import Montage.Error
import Montage.Template.Basic

/-!
# Facts about an input file

The name of a media file says what templates need to know about it: its
absolute path, its name with and without extension, the extension, and the
media type that goes with the extension. No file is opened for that.
-/

namespace Montage.MediaFile

def mediaTypes : List (String × String) :=
  [("aac", "audio/aac"), ("avi", "video/x-msvideo"), ("flac", "audio/flac"),
   ("gif", "image/gif"), ("jpeg", "image/jpeg"), ("jpg", "image/jpeg"),
   ("m3u8", "application/x-mpegURL"), ("m4a", "audio/mp4"), ("mkv", "video/x-matroska"),
   ("mov", "video/quicktime"), ("mp3", "audio/mpeg"), ("mp4", "video/mp4"),
   ("ogg", "audio/ogg"), ("png", "image/png"), ("ts", "video/mp2t"), ("txt", "text/plain"),
   ("wav", "audio/wav"), ("webm", "video/webm")]

def mediaType (p : Path) : String :=
  (p.extension?.bind fun ext => mediaTypes.lookup (Text.lowerAscii ext)).getD
    "application/octet-stream"

def absolute (cwd p : Path) : Except Error Path :=
  match Path.absolute? cwd p with
  | some q => .ok q
  | none => .error (.system .emptyPath)

def facts (role : String) (path : Path) : List (String × String) :=
  let key (fact : String) := "in." ++ role ++ "." ++ fact
  [(key "path", path.text), (key "name", path.stem), (key "suffix", path.extension?.getD ""),
   (key "filename", path.fileName), (key "mimetype", mediaType path)]

def describe (cwd : Path) (role : String) (path : Path) (params : Parameters) :
    Except Error Parameters := do
  let path ← absolute cwd path
  return params.insertMany (facts role path)

example : mediaType ⟨"/srv/media/lecture.MP4"⟩ = "video/mp4" := by decide
example : mediaType ⟨"mp4"⟩ = "application/octet-stream" := by decide

end Montage.MediaFile
