import Montage.Path
import Montage.Text.Blank
import Std.Data.TreeMap

/-!
# References in a playlist

A playlist names other files in two places: on its media lines, which are not
blank and do not begin with `#`, and in the `URI` attribute of the tags
`#EXT-X-MAP:` and `#EXT-X-MEDIA:`. When files get new names, those references
follow. All other lines stay, except that a blank line becomes empty, a media
line loses the blanks around it, and every line ends with a line feed.

A reference is looked up as it is written. A media line is also looked up by its
file name alone, and then keeps its directory.
-/

namespace Montage.Playlist

abbrev NewNames := Std.TreeMap String String

def isPlaylist (p : Path) : Bool :=
  match p.extension? with
  | some ext => Text.lowerAscii ext == "m3u8"
  | none => false

/-- What opens the attribute that names a file. -/
def uriStart : List Char := "URI=\"".toList

/-- The first reference in a tag that is not empty. -/
def uriIn? : List Char → Option (List Char)
  | [] => none
  | c :: cs =>
    match (uriStart.isPrefixOf? (c :: cs)).bind (Text.splitFirst? (· == '"')) with
    | some (d :: uri, _) => some (d :: uri)
    | _ => uriIn? cs

def namesFile (line : String) : Bool :=
  Text.startsWith "#EXT-X-MAP:" line || Text.startsWith "#EXT-X-MEDIA:" line

def renewTag (names : NewNames) (line : String) : String :=
  if namesFile line then
    match uriIn? line.toList with
    | some uri =>
      match names[String.ofList uri]? with
      | some new => String.ofList (Text.replaceFirst uri new.toList line.toList)
      | none => line
    | none => line
  else line

def renewMedia (names : NewNames) (reference : String) : String :=
  match names[reference]? with
  | some new => new
  | none =>
    let path : Path := ⟨reference⟩
    match names[path.fileName]? with
    | some new =>
      match path.parent? with
      | some parent => if parent.text = "" then new else (parent.join ⟨new⟩).text
      | none => new
    | none => reference

def renewLine (names : NewNames) (line : String) : String :=
  let reference := Text.trimmed line
  if reference = "" then ""
  else if Text.startsWith "#" line then renewTag names line
  else renewMedia names reference

def renew (names : NewNames) (playlist : String) : String :=
  String.join ((Text.lines playlist).map fun line => renewLine names line ++ "\n")

example : uriIn? "#EXT-X-MAP:URI=\"\",URI=\"a\"".toList = some ['a'] := by decide

end Montage.Playlist
