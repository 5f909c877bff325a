import Montage.Profile.Kind
import Montage.Template.Fragment

/-!
# Encoding profiles

A profile is a named recipe: a command template, the kinds of media that it
takes and makes, and the suffixes of the files that it writes. Whatever else is
said about a profile is kept under its key among the extensions; the command
template is one of them.
-/

namespace Montage

/-- A named recipe. -/
structure Profile where
  identifier : String
  name : String
  /-- The kind of media that it takes. -/
  input : MediaKind
  /-- The kind of media that it makes. -/
  output : MediaKind
  /-- The template of the suffix of its files. -/
  suffix : Option String := none
  /-- The templates of further suffixes, by their tags. -/
  taggedSuffixes : Std.TreeMap String String := ∅
  mimeType : Option String := none
  jobLoad : Float32 := 1
  extensions : Std.TreeMap String String := ∅

namespace Profile

def adaptiveKey : String := "adaptive.type"

def command? (p : Profile) : Option String := p.extensions[Template.commandKey]?

def command (p : Profile) : Except Error String :=
  match p.command? with
  | some line => .ok line
  | none => .error (.template (.noCommand p.identifier))

def adaptiveType? (p : Profile) : Option String := p.extensions[adaptiveKey]?

/-- The suffix template; without one it is empty. -/
def suffixTemplate (p : Profile) : String := p.suffix.getD ""

def tags (p : Profile) : List String := p.taggedSuffixes.keys

/-- The profile can process a source of this kind. A source with sound and
pictures also serves profiles that take one of the two. -/
def isApplicableTo (p : Profile) (kind : MediaKind) : Bool :=
  p.input == kind ||
    (kind == .audioVisual && (p.input == .audio || p.input == .visual))

end Profile

end Montage
