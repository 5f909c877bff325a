import Montage.Command
import Montage.Output.Bitrate
import Montage.Output.Contribution
import Montage.Output.Wiring
import Montage.Template.Arguments
import Montage.Words

/-!
# One stream, many outputs

Several profiles encode one stream in one command. Each delivery profile has an
output of its own. If one of the profiles describes an adaptive group, the
delivery profiles are its variants instead, and only the group writes files; of
several groups the last one counts.

A profile that leaves no options takes no part in the command, but keeps its
slot. The outputs, their pads and the variants are numbered by the profiles that
do take part.

Outputs with names of their own need fresh identifiers: delivery profile `k`
gets `ids k`.
-/

namespace Montage

structure StreamPads where
  video : Option Pad
  audio : Option Pad
  deriving DecidableEq, Repr

def StreamPads.pad? (pads : StreamPads) : StreamKind → Option Pad
  | .video => pads.video
  | .audio => pads.audio

/-- The shared command of profiles that encode one stream. -/
structure FanOut where
  video : Wiring
  audio : Wiring
  arguments : List String
  /-- The slots of the delivery profiles in their order. -/
  slots : List OutputSlot
  segmentSuffixes : List String
  adaptive : Bool
  deriving Repr

namespace FanOut

structure Roles where
  delivery : List Profile
  group : Option Profile

def Roles.add (roles : Roles) (p : Profile) : Except Error Roles :=
  match p.adaptiveType? with
  | none => .ok { roles with delivery := roles.delivery ++ [p] }
  | some kind =>
    if Text.lowerAscii kind = "hls" then .ok { roles with group := some p }
    else .error (.unsupportedGraph (.adaptiveType p.identifier kind))

def rolesOf (profiles : List Profile) : Except Error Roles := profiles.foldlM Roles.add ⟨[], none⟩

def baseName (params : Parameters) : String :=
  (params["out.name.base"]? <|> params["out.name"]?).getD "output"

def outputParameters (params : Parameters) (p : Profile) (id : String) : Parameters :=
  let params := params.insert "out.name" (baseName params ++ "_" ++ id)
  params.insert "out.suffix" (Template.substitute params p.suffixTemplate)

def ownOutput (params : Parameters) (dropCopy : Bool) (p : Profile) (id : String) :
    Except Error Contribution := do
  let arguments := Template.arguments (outputParameters params p id)
    (← Words.tokenize (← p.command))
  let c ← Contribution.ofArguments p.identifier .own dropCopy arguments
  return { c with file := if c.isActive then targetOf? arguments else none }

def outputKeys : List String := ["out.dir", "out.name", "out.suffix"]

/-- The contribution of a delivery profile as a variant. The words that name its
own output are left out. -/
def variant (params : Parameters) (dropCopy : Bool) (p : Profile) (index : Nat) :
    Except Error Contribution := do
  let words := (← Words.tokenize (← p.command)).filter fun word =>
    !Text.contains (Template.placeholder "out.name") word
  let arguments := Template.arguments (params.eraseMany outputKeys) words
  Contribution.ofArguments p.identifier (.variant index) dropCopy arguments

/-- The contributions of delivery profiles with outputs of their own; `position`
is the place of the first one. -/
def ownOutputs (params : Parameters) (dropCopy : Bool) (ids : Nat → String) (position : Nat) :
    List Profile → Except Error (List Contribution)
  | [] => .ok []
  | p :: rest => do
    let c ← ownOutput params dropCopy p (ids position)
    return c :: (← ownOutputs params dropCopy ids (position + 1) rest)

/-- The contributions of delivery profiles as variants; `index` is the number of
the first variant. -/
def variants (params : Parameters) (dropCopy : Bool) (index : Nat) :
    List Profile → Except Error (List Contribution)
  | [] => .ok []
  | p :: rest => do
    let c ← variant params dropCopy p index
    return c :: (← variants params dropCopy (if c.isActive then index + 1 else index) rest)

def wiring (pads : StreamPads) (kind : StreamKind) (active : List Contribution) : Wiring :=
  match pads.pad? kind with
  | some pad => .ofFilters kind pad (active.map (·.filter kind))
  | none => {}

def mapOption (w : Wiring) (index : Nat) : List String :=
  match w.maps[index]? with
  | some value => ["-map", value]
  | none => []

def outputGroup (video audio : Wiring) (index : Nat) (c : Contribution) : List String :=
  mapOption video index ++ mapOption audio index ++ c.options

def outputGroups (video audio : Wiring) (active : List Contribution) : List String :=
  active.zipIdx.flatMap fun (c, i) => outputGroup video audio i c

def kinds (pads : StreamPads) : List StreamKind :=
  Clip.streamKinds pads.video.isSome pads.audio.isSome

def bitrateOptions (kinds : List StreamKind) (bitrates : StreamKind → List String) (index : Nat) :
    List String :=
  kinds.flatMap fun kind =>
    ["-b:" ++ kind.letter.toString ++ ":" ++ toString index, (bitrates kind)[index]?.getD ""]

def variantStreams (kinds : List StreamKind) (index : Nat) : String :=
  ",".intercalate (kinds.map fun kind => kind.letter.toString ++ ":" ++ toString index)

def groupParameters (params : Parameters) (group : Profile) : Parameters :=
  let params :=
    if params.contains "out.name" then params
    else
      match params["out.name.base"]? with
      | some base => params.insert "out.name" base
      | none => params
  params.insert "out.suffix" (Template.substitute params group.suffixTemplate)

def groupArguments (params : Parameters) (pads : StreamPads) (group : Profile)
    (active : List Contribution) : Except Error (List String) := do
  let own := Template.arguments (groupParameters params group)
    (Words.splitLoose (← group.command))
  let bitrates (kind : StreamKind) := variantBitrates kind group (active.map (·.bitrate kind))
  let indices := List.range active.length
  return indices.flatMap (bitrateOptions (kinds pads) bitrates) ++
    ["-var_stream_map", " ".intercalate (indices.map (variantStreams (kinds pads)))] ++ own

def trailingArguments (params : Parameters) (pads : StreamPads) (active : List Contribution) :
    Option Profile → Except Error (List String)
  | some group => groupArguments params pads group active
  | none => .ok []

/-- The contributions of the delivery profiles, with outputs of their own or as
variants of the group. Copied streams are dropped where a stream is split. -/
def contributions (ids : Nat → String) (params : Parameters) (roles : Roles) :
    Except Error (List Contribution) :=
  let dropCopy := 1 < roles.delivery.length
  if roles.group.isSome then variants params dropCopy 0 roles.delivery
  else ownOutputs params dropCopy ids 0 roles.delivery

def build (ids : Nat → String) (profiles : List Profile) (params : Parameters)
    (pads : StreamPads) : Except Error FanOut := do
  if pads.video.isNone && pads.audio.isNone then throw (.missingStream .noPad)
  let roles ← rolesOf profiles
  if roles.delivery.isEmpty then throw (.invalidInput .noDelivery)
  let contributions ← contributions ids params roles
  let active := contributions.filter (·.isActive)
  if active.isEmpty then throw (.invalidInput .noOutput)
  let video := wiring pads .video active
  let audio := wiring pads .audio active
  let trailing ← trailingArguments params pads active roles.group
  return {
    video, audio
    arguments := outputGroups video audio active ++ trailing
    slots := (roles.delivery.zip contributions).map fun (p, c) => ⟨p.identifier, c.file⟩
    segmentSuffixes :=
      if roles.group.isSome then
        roles.delivery.map fun p => Template.substitute params p.suffixTemplate
      else []
    adaptive := roles.group.isSome }

/-- The clauses in graph order: those of the sound, then those of the video. -/
def clauses (f : FanOut) : List Clause := f.audio.clauses ++ f.video.clauses

end FanOut

end Montage
