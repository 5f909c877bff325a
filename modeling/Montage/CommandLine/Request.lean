import Montage.CommandLine.Reading
import Montage.Composite
import Montage.Settings

/-!
# Requests of a command line

The commands of the program and the options that they know. Some options belong
to all commands and can stand on either side of the command's name; the one
behind it wins. The paths of profiles can also come from the environment.
-/

namespace Montage.CommandLine

structure Common where
  profilePaths : List Path
  outputDirectory : Option Path
  encoder : Option String
  logDirectory : Option Path
  dryRun : Bool
  json : Bool
  verbose : Bool
  deriving DecidableEq, Repr

structure StreamFlags where
  video : Bool
  audio : Bool
  deriving DecidableEq, Repr

structure Recipe where
  profile : String
  properties : List (String × String)
  deriving DecidableEq, Repr

inductive Request where
  | encode (input : Path) (recipe : Recipe)
  | trim (input : Path) (start duration : Nat) (recipe : Recipe)
  | image (input : Path) (times : List Float) (recipe : Recipe)
  | mux (video audio : Path) (recipe : Recipe)
  | watermark (input image : Path) (recipe : Recipe)
  | multiEncode (input : Path) (profiles : List String) (streams : Option StreamFlags)
  | edit (inputs : List Path) (edits : Option (List Nat)) (transition : Option Nat)
      (profiles : List String) (streams : Option StreamFlags)
  | composite (size : FrameSize) (lower : Path × Layout) (upper watermark : Option (Path × Layout))
      (background : String) (streams : Option StreamFlags) (recipe : Recipe)
  | concat (inputs : List Path) (size : Option FrameSize) (rate : Option Float32)
      (sameCodec : Bool) (streams : Option StreamFlags) (recipe : Recipe)
  | profiles
  | probe (input : Path)

namespace Read

def path? (text : String) : Option Path := if text.isEmpty then none else some ⟨text⟩

def text? (text : String) : Option String := some text

def natural? (text : String) : Option Nat := (readNatural natural64 text.toList).toOption

def size? (text : String) : Option FrameSize := (FrameSize.ofText text).toOption

def streams? : String → Option StreamFlags
  | "av" => some ⟨true, true⟩
  | "video" => some ⟨true, false⟩
  | "audio" => some ⟨false, true⟩
  | _ => none

/-- A property `key=value`; the key is not blank. -/
def property? (text : String) : Option (String × String) :=
  (Text.cut? '=' text).bind fun (key, value) =>
    if Text.isBlankText key then none else some (Text.trimmed key, value)

end Read

def readable {α : Type} (read : String → Option α) (text : String) : Bool := (read text).isSome

def commonOptions : List OptionSpec :=
  [{ name := "profiles", use := .repeated, commas := true, accepts := readable Read.path? },
   { name := "output-dir", letter := some 'o', accepts := readable Read.path? },
   { name := "ffmpeg" },
   { name := "log-dir", letter := some 'l', accepts := readable Read.path? },
   { name := "dry-run", use := .switch },
   { name := "json", use := .switch },
   { name := "verbose", letter := some 'v', use := .switch }]

def inputOption : OptionSpec :=
  { name := "input", letter := some 'i', accepts := readable Read.path? }

def inputsOption : OptionSpec := { inputOption with use := .repeated }

def recipeOptions : List OptionSpec :=
  [{ name := "profile", letter := some 'p' },
   { name := "set", use := .repeated, accepts := readable Read.property? }]

def profilesOption : OptionSpec :=
  { name := "profile", letter := some 'p', use := .repeated, commas := true }

def streamsOption : OptionSpec := { name := "streams", accepts := readable Read.streams? }

def fileOption (name : String) : OptionSpec := { name, accepts := readable Read.path? }

def timeOption (name : String) : OptionSpec := { name, accepts := readable Read.natural? }

def sizeOption : OptionSpec := { name := "size", accepts := readable Read.size? }

def layoutOption (name : String) : OptionSpec := { name, accepts := readable Layout.ofText? }

def commandOptions : List (String × List OptionSpec) :=
  [("encode", inputOption :: recipeOptions),
   ("trim", inputOption :: timeOption "start" :: timeOption "duration" :: recipeOptions),
   ("image",
    inputOption ::
      { name := "times", letter := some 't', use := .repeated, commas := true,
        accepts := readable readFloat? } ::
      recipeOptions),
   ("mux", fileOption "video" :: fileOption "audio" :: recipeOptions),
   ("watermark", inputOption :: fileOption "image" :: recipeOptions),
   ("multi-encode", [inputOption, profilesOption, streamsOption]),
   ("edit",
    [inputsOption,
     { name := "edits", letter := some 'e', use := .repeated, commas := true,
       accepts := readable Read.natural? },
     timeOption "transition", profilesOption, streamsOption]),
   ("composite",
    sizeOption :: fileOption "lower" :: layoutOption "lower-layout" ::
      fileOption "upper" :: layoutOption "upper-layout" ::
      fileOption "watermark" :: layoutOption "watermark-layout" ::
      { name := "background" } :: streamsOption :: recipeOptions),
   ("concat",
    inputsOption :: sizeOption :: { name := "fps", accepts := readable readFloat32? } ::
      { name := "same-codec", use := .switch } :: streamsOption :: recipeOptions),
   ("profiles", []),
   ("probe", [inputOption])]

def topLevel : Level where
  options := commonOptions
  commands := commandOptions.map (·.1)
  hasVersion := true

def commandLevel (command : String) : Level where
  options := commonOptions ++ (commandOptions.lookup command).getD []

def recipe? (given : Given) : Option Recipe := do
  return ⟨← given.required? "profile" Read.text?, ← given.all? "set" Read.property?⟩

/-- A path and its layout. The path asks for the layout; a layout without a path
says nothing. -/
def placed? (given : Given) (name : String) : Option (Option (Path × Layout)) := do
  let path ← given.optional? name Read.path?
  let layout ← given.optional? (name ++ "-layout") Layout.ofText?
  match path, layout with
  | some path, some layout => return some (path, layout)
  | some _, none => none
  | none, _ => return none

def request? (command : String) (given : Given) : Option Request := do
  let input := given.required? "input" Read.path?
  let inputs := given.requiredAll? "input" Read.path?
  let profiles := given.requiredAll? "profile" Read.text?
  let streams := given.optional? "streams" Read.streams?
  match command with
  | "encode" => return .encode (← input) (← recipe? given)
  | "trim" =>
    return .trim (← input) (← given.required? "start" Read.natural?)
      (← given.required? "duration" Read.natural?) (← recipe? given)
  | "image" => return .image (← input) (← given.all? "times" readFloat?) (← recipe? given)
  | "mux" =>
    return .mux (← given.required? "video" Read.path?) (← given.required? "audio" Read.path?)
      (← recipe? given)
  | "watermark" =>
    return .watermark (← input) (← given.required? "image" Read.path?) (← recipe? given)
  | "multi-encode" => return .multiEncode (← input) (← profiles) (← streams)
  | "edit" =>
    let edits ← given.all? "edits" Read.natural?
    return .edit (← inputs) (if given.has "edits" then some edits else none)
      (← given.optional? "transition" Read.natural?) (← profiles) (← streams)
  | "composite" =>
    return .composite (← given.required? "size" Read.size?)
      (← given.required? "lower" Read.path?, ← given.required? "lower-layout" Layout.ofText?)
      (← placed? given "upper") (← placed? given "watermark")
      ((← given.optional? "background" Read.text?).getD "black") (← streams) (← recipe? given)
  | "concat" =>
    return .concat (← inputs) (← given.optional? "size" Read.size?)
      (← given.optional? "fps" readFloat32?) (given.has "same-codec") (← streams)
      (← recipe? given)
  | "profiles" => return .profiles
  | "probe" => return .probe (← input)
  | _ => none

def profilesVariable : String := "COMPOSER_PROFILES"

/-- The paths of profiles. Each level without paths of its own asks the
environment, so its paths have to be readable unless both levels have some. -/
def profilePaths? (env : Environment) (top own : Given) : Option (List Path) := do
  let topPaths ← top.all? "profiles" Read.path?
  let ownPaths ← own.all? "profiles" Read.path?
  let envPaths ←
    if top.has "profiles" && own.has "profiles" then some []
    else
      match env[profilesVariable]? with
      | some text => (Text.split ',' text).mapM Read.path?
      | none => some []
  return if own.has "profiles" then ownPaths else if top.has "profiles" then topPaths else envPaths

/-- The value of an option on either level. -/
def onEither? {α : Type} (top own : Given) (name : String) (read : String → Option α) :
    Option (Option α) := do
  let topValue ← top.optional? name read
  let ownValue ← own.optional? name read
  return ownValue <|> topValue

def common? (env : Environment) (top own : Given) : Option Common := do
  let switch (name : String) : Bool := top.has name || own.has name
  return {
    profilePaths := ← profilePaths? env top own
    outputDirectory := ← onEither? top own "output-dir" Read.path?
    encoder := ← onEither? top own "ffmpeg" Read.text?
    logDirectory := ← onEither? top own "log-dir" Read.path?
    dryRun := switch "dry-run"
    json := switch "json"
    verbose := switch "verbose" }

structure Parsed where
  command : String
  common : Common
  request : Request

def parse (env : Environment) (arguments : List String) : Except Halt Parsed := do
  let (top, command) ← topLevel.read {} arguments
  match command with
  | none => throw .misuse
  | some (command, rest) =>
    let (own, _) ← (commandLevel command).read {} rest
    let own ← own.settle
    let top ← top.settle
    match common? env top own, request? command own with
    | some common, some request => return { command, common, request }
    | _, _ => throw .misuse

end Montage.CommandLine
