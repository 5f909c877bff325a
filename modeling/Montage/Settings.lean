import Montage.Error
import Montage.Number.Shortest
import Montage.Text.Blank
import Std.Data.TreeMap

/-!
# Settings

Which encoder runs, how long transitions are, where files go, and how much work
a run is taken to be. The environment may override some of the settings, one
after the other; where a variable cannot be read, the overrides before it stand.
A blank variable counts as not set.
-/

namespace Montage

abbrev Environment := Std.TreeMap String String

structure Settings where
  encoder : String := "ffmpeg"
  /-- The length of a transition in milliseconds. -/
  transition : Nat := 2000
  /-- Where outputs go; without it, next to the first input. -/
  outputDirectory : Option Path := none
  temporaryDirectory : Option Path := none
  /-- Where temporary files go that have no directory of their own. -/
  systemTemporary : Path := ⟨"/tmp"⟩
  /-- The load of each profile of a run. -/
  profileLoad : Float32 := 0.5
  /-- The load of a run without profiles. -/
  baseLoad : Float32 := 2
  /-- The greatest load of a run. -/
  greatestLoad : Float32 := 4

namespace Settings

def nonBlank? (env : Environment) (name : String) : Option String :=
  env[name]?.filter (!Text.isBlankText ·)

def applyEncoder (env : Environment) (s : Settings) : Settings :=
  { s with encoder := (nonBlank? env "COMPOSER_FFMPEG_PATH").getD s.encoder }

def applyTransition (env : Environment) (s : Settings) : Except Error Settings :=
  let name := "COMPOSER_TRANSITION_DURATION_MS"
  match nonBlank? env name with
  | none => .ok s
  | some text =>
    match readNatural natural64 (Text.trim text.toList) with
    | .ok ms => .ok { s with transition := ms }
    | .error fault => .error (.configuration (.invalidVariable name text fault))

def applyDirectories (env : Environment) (s : Settings) : Settings :=
  { s with
    outputDirectory := ((nonBlank? env "COMPOSER_OUTPUT_DIR").map .mk) <|> s.outputDirectory
    temporaryDirectory := ((nonBlank? env "COMPOSER_TEMP_DIR").map .mk) <|> s.temporaryDirectory }

/-- The settings after the environment, and the failure that ended its overrides. -/
def applyEnvironment (env : Environment) (s : Settings) : Settings × Option Error :=
  let s := applyEncoder env s
  match applyTransition env s with
  | .ok s => (applyDirectories env s, none)
  | .error e => (s, some e)

def usual (env : Environment) : Settings :=
  match env["TMPDIR"]? with
  | some directory => { systemTemporary := ⟨directory⟩ }
  | none => {}

def ofEnvironment (env : Environment) : Except Error Settings :=
  match applyEnvironment env (usual env) with
  | (s, none) => .ok s
  | (_, some e) => .error e

def loads (s : Settings) : List (String × Float32) :=
  [("per_profile_job_load", s.profileLoad), ("process_smil_job_load", s.baseLoad),
   ("process_smil_job_load_max", s.greatestLoad)]

/-- The settings can be used: there is an encoder, and loads are numbers that
are not negative. -/
def validate (s : Settings) : Except Error Unit :=
  if Text.isBlankText s.encoder then .error (.configuration .emptyEncoder)
  else
    match s.loads.find? fun (_, load) => !load.isFinite || load < 0 with
    | some (name, load) => .error (.configuration (.invalidLoad name (showFloat32 load)))
    | none => .ok ()

/-- The smaller of two loads; a NaN yields to the other one. -/
def smallerLoad (a b : Float32) : Float32 :=
  if b < a || a.isNaN then b else a

def estimateLoad (s : Settings) (profiles : Nat) : Float32 :=
  smallerLoad (s.baseLoad + s.profileLoad * (UInt64.ofNat profiles).toFloat32) s.greatestLoad

def temporary (s : Settings) : Path := s.temporaryDirectory.getD s.systemTemporary

end Settings

end Montage
