import Montage.CommandLine.Failure
import Montage.CommandLine.Printing
import Montage.CommandLine.Request
import Montage.Engine.Operate
import Montage.Profile.Registry

/-!
# Carrying out a command

First the settings are made and the profiles loaded, then the request is looked
at: its files have to exist, their streams are asked for where they are not
given, and the profiles are looked up. Only then an engine compiles or runs it.
-/

namespace Montage.CommandLine

/-- What surrounds a run of the program. -/
structure Surroundings where
  environment : Environment
  /-- The time in the names of log files. -/
  timestamp : String
  /-- What a prober says about a file on a disk, if it starts. -/
  prober : Disk → Path → Except SystemFault ProbeRun

abbrev Shell := ExceptT Failure (StateM Workbench)

namespace Shell

def ofExcept {α : Type} (result : Except Error α) : Shell α :=
  ExceptT.mk (pure (result.mapError Failure.error))

def ofWork {α : Type} (work : Work α) : Shell α :=
  ExceptT.mk do return (← work.run).mapError Failure.error

def change (context : String) (step : Disk → Except SystemFault Disk) : Shell Unit := do
  let w ← get
  match step w.disk with
  | .ok disk => set { w with disk }
  | .error fault => throw (.within context (.system fault))

end Shell

def logName (command timestamp : String) : String :=
  "composer_" ++ Text.replaced "-" "_" command ++ "_" ++ timestamp ++ ".log"

def openLog (s : Surroundings) (parsed : Parsed) : Shell Unit := do
  match parsed.common.logDirectory with
  | none => return
  | some directory =>
    Shell.change ("Failed to create log directory '" ++ directory.text ++ "'")
      (·.makeDirectories directory)
    let file := directory.join ⟨logName parsed.command s.timestamp⟩
    Shell.change ("Failed to create log file '" ++ file.text ++ "'") (·.write file .empty)

def useOutputDirectory (settings : Settings) (directory : Option Path) : Shell Settings := do
  match directory with
  | none => return settings
  | some directory =>
    Shell.change ("Failed to create output directory '" ++ directory.text ++ "'")
      (·.makeDirectories directory)
    match (← get).disk.canonical directory with
    | .ok path => return { settings with outputDirectory := some path }
    | .error fault => throw (.system fault)

def settings (s : Surroundings) (common : Common) : Shell Settings := do
  let base ←
    match Settings.ofEnvironment s.environment with
    | .ok base => pure base
    | .error e => throw (.within "Invalid COMPOSER_* environment" (.error e))
  let settings ←
    useOutputDirectory { base with encoder := common.encoder.getD base.encoder }
      common.outputDirectory
  Shell.ofExcept settings.validate
  return settings

def loadProfiles (d : Disk) (r : ProfileRegistry) : List Path → Except Failure ProfileRegistry
  | [] => .ok r
  | path :: paths =>
    match if d.isDirectory path then r.loadDirectory d path else r.loadFile d path with
    | (r, .ok _) => loadProfiles d r paths
    | (_, .error e) =>
      .error (.within ("Failed to load profiles from '" ++ path.text ++ "'") (.error e))

def requireFile (path : Path) : Shell Unit := do
  if !(← get).disk.isFile path then throw (.notAFile path)

def probe (s : Surroundings) (path : Path) : Shell StreamFacts := do
  match Probe.streams path (s.prober (← get).disk path) with
  | .ok facts => pure facts
  | .error e => throw (.within ("Failed to probe '" ++ path.text ++ "'") (.error e))

/-- The streams of a file, asked for where they are not given. -/
def streamsOf (s : Surroundings) (path : Path) (given : Option StreamFlags) :
    Shell StreamFlags := do
  match given with
  | some flags => return flags
  | none =>
    let facts ← probe s path
    return ⟨facts.hasVideo, facts.hasAudio⟩

def profileOf (r : ProfileRegistry) (recipe : Recipe) : Shell (Profile × Parameters) := do
  let p ← Shell.ofExcept (r.get recipe.profile)
  return (p, .ofList recipe.properties)

def operationOf (s : Surroundings) (r : ProfileRegistry) : Request → Shell (Option Operation)
  | .encode input recipe => do
    requireFile input
    let (p, properties) ← profileOf r recipe
    return some (.make (.encode input) p properties)
  | .trim input start duration recipe => do
    requireFile input
    let (p, properties) ← profileOf r recipe
    return some (.make (.trim input start duration) p properties)
  | .image input times recipe => do
    requireFile input
    let (p, properties) ← profileOf r recipe
    return some (.images input times p properties)
  | .mux video audio recipe => do
    requireFile video
    requireFile audio
    let (p, properties) ← profileOf r recipe
    return some (.make (.mux video audio) p properties)
  | .watermark input image recipe => do
    requireFile input
    requireFile image
    let (p, properties) ← profileOf r recipe
    return some (.make (.watermark input image) p properties)
  | .multiEncode input ids streams => do
    requireFile input
    let flags ← streamsOf s input streams
    let profiles ← ids.mapM fun id => Shell.ofExcept (r.get id)
    return some (.edit { inputs := [input], video := flags.video, audio := flags.audio } profiles)
  | .edit inputs edits transition ids streams => do
    inputs.forM requireFile
    let flags ← streamsOf s (inputs.headD ⟨""⟩) streams
    let profiles ← ids.mapM fun id => Shell.ofExcept (r.get id)
    return some (.edit
      { inputs, edits, transition, video := flags.video, audio := flags.audio } profiles)
  | .composite size lower upper watermark background streams recipe => do
    requireFile lower.1
    let lowerFlags ← streamsOf s lower.1 streams
    let upperTrack : Option Track ←
      match upper with
      | none => pure none
      | some (path, layout) => do
        requireFile path
        let flags ← streamsOf s path streams
        pure (some ⟨path, layout, flags.audio⟩)
    let mark : Option Watermark ←
      match watermark with
      | none => pure none
      | some (path, layout) => do
        match Path.absolute? (← get).disk.cwd path with
        | some path => pure (some ⟨path, layout⟩)
        | none => throw (.system .emptyPath)
    let (p, properties) ← profileOf r recipe
    return some (.make (.composite {
      output := size
      lower := ⟨lower.1, lower.2, lowerFlags.audio⟩
      upper := upperTrack
      watermark := mark
      background }) p properties)
  | .concat inputs size rate sameCodec streams recipe => do
    let inputs : List ConcatInput ← inputs.mapM fun path => do
      requireFile path
      let flags ← streamsOf s path streams
      return ⟨path, flags.video, flags.audio⟩
    let (p, properties) ← profileOf r recipe
    return some (.concat { inputs, size, rate, sameCodec } p properties)
  | .profiles | .probe _ => return none

def printResult (json : Bool) (operation : Operation) (slots : List (Option Path)) : String :=
  match operation with
  | .edit _ profiles =>
    if profiles.any (·.adaptiveType?.isSome) then printFiles json slots.reduceOption
    else printSlots json (profiles.map (·.identifier)) slots
  | _ => printFiles json slots.reduceOption

def performRequest (s : Surroundings) (common : Common) (r : ProfileRegistry)
    (request : Request) : Shell String := do
  match ← operationOf s r request with
  | some operation =>
    if common.dryRun then
      return printCommands common.json (← Shell.ofWork operation.dryRun)
    else return printResult common.json operation (← Shell.ofWork operation.run)
  | none =>
    match request with
    | .probe input => return printStreams common.json (← probe s input)
    | _ => return printProfiles common.json r.toList

def perform (s : Surroundings) (parsed : Parsed) : Shell String := do
  openLog s parsed
  let settings ← settings s parsed.common
  let profiles ←
    match loadProfiles (← get).disk {} parsed.common.profilePaths with
    | .ok profiles => pure profiles
    | .error f => throw f
  modify fun w => { w with settings }
  performRequest s parsed.common profiles parsed.request

end Montage.CommandLine
