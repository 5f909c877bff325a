import Montage.Path
import Montage.Text.Blank
import Montage.Text.Digit

/-!
# Announced files

An encoder says in its messages which files it writes. An output line,

    Output #0, mp4, to 'talk.mp4':

names a format and a file; the file goes up to the last `':` of its line, so it
may hold quotes. For an adaptive output the line names only the main playlist,
and the files come from lines such as

    [hls @ 0x1] Opening 'talk_0.m3u8.tmp' for writing

where `.tmp` marks a file that gets its name when it is complete.

The files are collected in the order of their first announcement.
-/

namespace Montage.Encoder

def isNullSink (text : String) : Bool :=
  text == "NUL" || text == "/dev/null" || text == "-" || Text.startsWith "pipe:" text

/-- The text before the last `':` on the first line of a text. -/
def untilLastQuoteColon (cs : List Char) : Option (List Char) :=
  (Text.find? [':', '\''] (cs.takeWhile (· != '\n')).reverse).map fun (_, before) => before.reverse

def outputAfterNumber? (cs : List Char) : Option (List Char × List Char) :=
  match cs.takeWhile Text.isDigit, cs.dropWhile Text.isDigit with
  | _ :: _, ',' :: ' ' :: cs =>
    let run := cs.takeWhile (!Text.isBlank ·)
    match " to '".toList.isPrefixOf? (cs.dropWhile (!Text.isBlank ·)) with
    | some rest =>
      if run = [] then none
      else
        let format := if run.getLast? = some ',' ∧ 1 < run.length then run.dropLast else run
        (untilLastQuoteColon rest).map fun file => (format, file)
    | none => none
  | _, _ => none

def outputIn? : List Char → Option (List Char × List Char)
  | [] => none
  | c :: cs =>
    match ("Output #".toList.isPrefixOf? (c :: cs)).bind outputAfterNumber? with
    | some found => some found
    | none => outputIn? cs

/-- A file that gets its name when it is complete, under that name. -/
def withoutTmp (file : List Char) : List Char :=
  match ".tmp".toList.isSuffixOf? file with
  | some (c :: cs) => c :: cs
  | _ => file

def openedAfterQuote? (cs : List Char) : Option (List Char) :=
  match Text.splitFirst? (· == '\'') cs with
  | some (c :: file, rest) =>
    if " for writing".toList.isPrefixOf rest then some (withoutTmp (c :: file)) else none
  | _ => none

def openedIn? : List Char → Option (List Char)
  | [] => none
  | c :: cs =>
    match ("Opening '".toList.isPrefixOf? (c :: cs)).bind openedAfterQuote? with
    | some file => some file
    | none => openedIn? cs

def announced? (line : String) : Option Path :=
  let file? : Option (List Char) :=
    if Text.startsWith "Output #" line then
      match outputIn? line.toList with
      | some (format, file) => if "hls".toList.isPrefixOf format then none else some file
      | none => none
    else if Text.startsWith "[hls @ " line then openedIn? line.toList
    else none
  match file? with
  | some file => if isNullSink (String.ofList file) then none else some ⟨String.ofList file⟩
  | none => none

/-- Adds a file, unless the same path is there already. -/
def remember (files : List Path) (file : Path) : List Path :=
  if files.any (·.same file) then files else files ++ [file]

def observe (files : List Path) (line : String) : List Path :=
  match announced? line with
  | some file => remember files file
  | none => files

def collect (lines : List String) : List Path := lines.foldl observe []

theorem observe_of_announced?_none {files : List Path} {line : String}
    (h : announced? line = none) : observe files line = files := by
  simp [observe, h]

theorem prefix_remember (files : List Path) (file : Path) : files <+: remember files file := by
  unfold remember
  split
  · exact List.prefix_refl _
  · exact List.prefix_append _ _

theorem prefix_observe (files : List Path) (line : String) : files <+: observe files line := by
  unfold observe
  split
  · exact prefix_remember _ _
  · exact List.prefix_refl _

example : announced? "Output #0, mov,mp4,, to 'it's':" = some ⟨"it's"⟩ := by decide
example : announced? "Output #0, hls, to 'a.m3u8':" = none := by decide
example : announced? "[hls @ 0x1] Opening 'x.tmp' for writing" = some ⟨"x"⟩ := by decide
example : announced? "[hls @ 0x1] Opening '.tmp' for writing" = some ⟨".tmp"⟩ := by decide

end Montage.Encoder
