import Montage.Disk.Change
import Montage.Playlist.Reference

/-!
# Renaming variant segments

An adaptive run writes the segments of its variants under one name with a
number. Afterwards each segment gets the suffix of the profile that made it, and
the playlists follow. Segments are taken in the order of their file names, so
segment `i` gets suffix `i`; segments or suffixes in excess are left alone.

A step may fail, and the files are moved one by one. A `Renaming` therefore
carries the list of files as they are named on the disk at that moment, and is
returned with a failure too.
-/

namespace Montage.Playlist

/-- How far the renaming has come. -/
structure Renaming where
  files : List Path
  names : NewNames := ∅
  disk : Disk

namespace Renaming

/-- The path of a segment with a suffix in the place of its extension. -/
def target (segment : Path) (suffix : String) : Path :=
  (segment.parent?.getD ⟨""⟩).join ⟨segment.stem ++ suffix⟩

def clear (d : Disk) (target : Path) : Except SystemFault Disk :=
  if d.holds target then d.remove target else .ok d

def step (r : Renaming) (index : Nat) (suffix : String) : Renaming × Option SystemFault :=
  match r.files[index]? with
  | none => (r, none)
  | some segment =>
    let goal := target segment suffix
    if goal.same segment then (r, none)
    else
      match clear r.disk goal with
      | .error fault => (r, some fault)
      | .ok disk =>
        match disk.rename segment goal with
        | .error fault => ({ r with disk }, some fault)
        | .ok disk =>
          ({ files := r.files.set index goal
             names := r.names.insert segment.fileName goal.fileName
             disk }, none)

def steps (r : Renaming) : List (Nat × String) → Renaming × Option SystemFault
  | [] => (r, none)
  | (index, suffix) :: rest =>
    match r.step index suffix with
    | (r, none) => r.steps rest
    | (r, some fault) => (r, some fault)

/-- The indices of the segments in the order of their file names. -/
def order (files : List Path) : List Nat :=
  let name (i : Nat) : String := (files[i]?.getD ⟨""⟩).fileName
  let isSegment (i : Nat) : Bool := !isPlaylist (files[i]?.getD ⟨""⟩)
  ((List.range files.length).filter isSegment).mergeSort fun i j => name i ≤ name j

def renewFile (names : NewNames) (d : Disk) (playlist : Path) : Except SystemFault Disk := do
  d.write playlist (renew names (← d.readText playlist)).toUTF8

def renewFiles (names : NewNames) (d : Disk) : List Path → Disk × Option SystemFault
  | [] => (d, none)
  | playlist :: rest =>
    match renewFile names d playlist with
    | .ok d => renewFiles names d rest
    | .error fault => (d, some fault)

/-- Renames segments and renews the playlists in the list, until a step fails. -/
def run (r : Renaming) (moves : List (Nat × String)) : Renaming × Option SystemFault :=
  match r.steps moves with
  | (r, some fault) => (r, some fault)
  | (r, none) =>
    if r.names.isEmpty then (r, none)
    else
      let (disk, fault) := renewFiles r.names r.disk (r.files.filter isPlaylist)
      ({ r with disk }, fault)

end Renaming

/-- Gives the segments among `files` their suffixes and renews the playlists
among them. -/
def renameSegments (disk : Disk) (files : List Path) (suffixes : List String) :
    Renaming × Option SystemFault :=
  ({ files, disk } : Renaming).run ((Renaming.order files).zip suffixes)

end Montage.Playlist
