import Montage.Disk.Contents
import Montage.Profile.Members
import Montage.Profile.Properties

/-!
# The registry of profiles

Profiles are kept and listed by their identifiers. A new profile takes the place
of one with the same identifier.

Loading adds profiles one by one. When it fails, the registry that is returned
with the failure holds what was added before.
-/

namespace Montage

structure ProfileRegistry where
  profiles : Std.TreeMap String Profile := ∅

namespace ProfileRegistry

def insert (r : ProfileRegistry) (p : Profile) : ProfileRegistry :=
  ⟨r.profiles.insert p.identifier p⟩

def get (r : ProfileRegistry) (id : String) : Except Error Profile :=
  match r.profiles[id]? with
  | some p => .ok p
  | none => .error (.unknownProfile id)

def ids (r : ProfileRegistry) : List String := r.profiles.keys

def toList (r : ProfileRegistry) : List Profile := r.profiles.values

def size (r : ProfileRegistry) : Nat := r.profiles.size

/-- The registry after loading, and how many profiles were loaded. -/
abbrev Loaded := ProfileRegistry × Except Error Nat

/-- Adds profiles until one cannot be read; `count` were added before. -/
def addAll (r : ProfileRegistry) (count : Nat) : List (Except Error Profile) → Loaded
  | [] => (r, .ok count)
  | .ok p :: rest => (r.insert p).addAll (count + 1) rest
  | .error e :: _ => (r, .error e)

def loadJson (r : ProfileRegistry) (text : String) : Loaded :=
  match Profile.ofJsonText text with
  | .ok profiles => r.addAll 0 (profiles.values.map .ok)
  | .error e => (r, .error e)

def loadProperties (r : ProfileRegistry) (text : String) : Loaded :=
  r.addAll 0 (Properties.profiles text)

/-- Loads a file, as JSON if its extension says so in any case. -/
def loadFile (r : ProfileRegistry) (d : Disk) (file : Path) : Loaded :=
  match d.readText file with
  | .error fault => (r, .error (.system fault))
  | .ok text =>
    if file.extension?.any fun ext => Text.lowerAscii ext == "json" then r.loadJson text
    else r.loadProperties text

def loadFiles (r : ProfileRegistry) (d : Disk) (count : Nat) : List Path → Loaded
  | [] => (r, .ok count)
  | file :: files =>
    match r.loadFile d file with
    | (r, .ok more) => r.loadFiles d (count + more) files
    | (r, .error e) => (r, .error e)

def isProfileFile (file : Path) : Bool :=
  file.extension? == some "json" || file.extension? == some "properties"

def loadDirectory (r : ProfileRegistry) (d : Disk) (directory : Path) : Loaded :=
  match d.list directory with
  | .error fault => (r, .error (.system fault))
  | .ok names =>
    let names := names.mergeSort (· ≤ ·)
    r.loadFiles d 0 ((names.map fun name => directory.join ⟨name⟩).filter isProfileFile)

/-- The profiles with these identifiers, or all, that can process a source of a
kind; the given order stands. -/
def findSuitable (r : ProfileRegistry) (ids : List String) (kind : MediaKind) :
    Except Error (List Profile) := do
  let candidates ← if ids.isEmpty then pure r.toList else ids.mapM r.get
  return candidates.filter (·.isApplicableTo kind)

end ProfileRegistry

end Montage
