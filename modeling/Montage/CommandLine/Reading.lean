import Montage.Text.Search

/-!
# Reading a command line

A command line is read on levels. On each level there are options, and on the
first one the name of a command ends the level. An option is a switch, or takes
a value: behind an equals sign, attached to its letter, or as the next word. A
word that begins with a hyphen is no value, except the hyphen alone; behind an
equals sign every value is possible. Letters of switches can be put together,
and the last of them may take a value.

Nothing stands behind the options, so what is no option, value or command is
misuse. Only options that may be repeated stand twice.

A question for help or for the version is answered where it stands, so what was
misused before it counts, and what comes behind it does not. A value that is a
word of its own waits until it is known that no other belongs to it: it is looked
at when the next option comes, or when all words are read. Behind the name of a
command that is after the words of the command.
-/

namespace Montage.CommandLine

inductive OptionUse where
  | switch
  | once
  | repeated
  deriving DecidableEq, Repr

structure OptionSpec where
  name : String
  letter : Option Char := none
  use : OptionUse := .once
  /-- Commas separate the values. -/
  commas : Bool := false
  /-- A value that can be read. -/
  accepts : String → Bool := fun _ => true

inductive Halt where
  | misuse
  | help
  | version
  deriving DecidableEq, Repr

/-- Options with their values in the order in which they were given. -/
abbrev Given := List (String × String)

def Given.add (given : Given) (spec : OptionSpec) (value : String) : Except Halt Given :=
  let values := if spec.commas then Text.split ',' value else [value]
  if spec.use ≠ .repeated ∧ given.any (·.1 == spec.name) then .error .misuse
  else if !values.all spec.accepts then .error .misuse
  else .ok (given ++ values.map fun v => (spec.name, v))

structure Progress where
  given : Given := []
  /-- An option with a value that was not looked at yet. -/
  waiting : Option (OptionSpec × String) := none

/-- All options, also the one that waits. -/
def Progress.settle (progress : Progress) : Except Halt Given :=
  match progress.waiting with
  | some (spec, value) => progress.given.add spec value
  | none => .ok progress.given

structure Level where
  options : List OptionSpec
  /-- The commands that end the level. -/
  commands : List String := []
  /-- The level answers the question for the version. -/
  hasVersion : Bool := false

namespace Level

/-- What is asked for instead of an option. -/
def halt (level : Level) (help version : Bool) : Halt :=
  if help then .help else if version && level.hasVersion then .version else .misuse

/-- Reads letters behind a hyphen. If the last option still needs its value, it
is given back. -/
def readLetters (level : Level) (given : Given) : List Char →
    Except Halt (Given × Option OptionSpec)
  | [] => .ok (given, none)
  | c :: cs =>
    match level.options.find? fun spec => spec.letter == some c with
    | none => .error (level.halt (c == 'h') (c == 'V'))
    | some spec =>
      if spec.use = .switch then
        match given.add spec "" with
        | .ok given => readLetters level given cs
        | .error halt => .error halt
      else
        match cs with
        | [] => .ok (given, some spec)
        | '=' :: value => (given.add spec (String.ofList value)).map fun given => (given, none)
        | value => (given.add spec (String.ofList value)).map fun given => (given, none)

/-- Reads the name behind two hyphens, and its value behind an equals sign. -/
def readName (level : Level) (given : Given) (name : String) (value : Option String) :
    Except Halt (Given × Option OptionSpec) :=
  match level.options.find? fun spec => spec.name == name with
  | none =>
    let asks := value.isNone
    .error (level.halt (asks && name == "help") (asks && name == "version"))
  | some spec =>
    match spec.use, value with
    | .switch, none => (given.add spec "").map fun given => (given, none)
    | .switch, some _ => .error .misuse
    | _, none => .ok (given, some spec)
    | _, some value => (given.add spec value).map fun given => (given, none)

def isValue (word : String) : Bool := word == "-" || !Text.startsWith "-" word

def readOption (level : Level) (given : Given) (word : String) :
    Except Halt (Given × Option OptionSpec) :=
  match Text.dropStart? "--" word with
  | some text =>
    match Text.cut? '=' text with
    | some (name, value) => level.readName given name (some value)
    | none => level.readName given text none
  | none => level.readLetters given (word.toList.drop 1)

/-- A word that is no option: a command with the words behind it. -/
def readCommand (level : Level) (word : String) (rest : List String) :
    Except Halt (String × List String) :=
  if level.commands.contains word then .ok (word, rest)
  else if word = "help" ∧ level.commands ≠ [] then
    match rest with
    | [] => .error .help
    | [name] =>
      if name = "help" ∨ level.commands.contains name then .error .help else .error .misuse
    | _ => .error .misuse
  else .error .misuse

def read (level : Level) (progress : Progress) : List String →
    Except Halt (Progress × Option (String × List String))
  | [] => .ok (progress, none)
  | word :: rest =>
    if word = "--" then
      if rest.isEmpty then .ok (progress, none) else .error .misuse
    else if isValue word then
      (level.readCommand word rest).map fun command => (progress, some command)
    else
      match progress.settle.bind fun given => level.readOption given word with
      | .error halt => .error halt
      | .ok (given, none) => read level ⟨given, none⟩ rest
      | .ok (given, some spec) =>
        match rest with
        | [] => .error .misuse
        | value :: rest =>
          if isValue value then read level ⟨given, some (spec, value)⟩ rest else .error .misuse

end Level

namespace Given

def has (given : Given) (name : String) : Bool := given.any (·.1 == name)

/-- All values of an option; nothing if one of them cannot be read. -/
def all? {α : Type} (given : Given) (name : String) (read : String → Option α) :
    Option (List α) :=
  (given.filter (·.1 == name)).mapM fun (_, value) => read value

def optional? {α : Type} (given : Given) (name : String) (read : String → Option α) :
    Option (Option α) :=
  (given.all? name read).map (·.head?)

def required? {α : Type} (given : Given) (name : String) (read : String → Option α) : Option α :=
  (given.optional? name read).bind id

def requiredAll? {α : Type} (given : Given) (name : String) (read : String → Option α) :
    Option (List α) :=
  if given.has name then given.all? name read else none

end Given

def sampleLevel : Level where
  options := [{ name := "verbose", letter := some 'v', use := .switch },
    { name := "out", letter := some 'o', accepts := fun s => !s.isEmpty },
    { name := "items", use := .repeated, commas := true }]
  commands := ["go"]

def sampleResult (words : List String) : Except Halt (Given × Option (String × List String)) := do
  let (progress, command) ← sampleLevel.read {} words
  return (← progress.settle, command)

example : (sampleResult ["-vo=x", "--items", "a,b", "go", "-"]).toOption =
    some ([("verbose", ""), ("out", "x"), ("items", "a"), ("items", "b")], some ("go", ["-"])) := by
  decide
example : (sampleResult ["-o", "-v"]).toOption = none := by decide
example : (sampleResult ["-o", "", "-h"]) matches .error .misuse := by decide
example : (sampleResult ["-o", "x", "-h", "-o="]) matches .error .help := by decide

end Montage.CommandLine
