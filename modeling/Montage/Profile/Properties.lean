import Montage.Number.Reading
import Montage.Profile.Basic
import Montage.Text.Search

/-!
# Profiles as properties

A property is a line `key = value`; a colon serves as well as the equals sign.
A line that ends in an odd number of backslashes goes on in the next one, where
leading blanks do not count. Lines that begin with `#` or `!` are comments.

The key of a property is `profile.<id>.<attribute>`. Identifiers and attributes
may both hold dots, so the key alone does not say where the one ends. Every
profile has a `name`, and the names tell the identifiers; a key then belongs to
the longest identifier that fits.
-/

namespace Montage.Properties

/-- Nothing is said on this line. -/
def isComment (line : List Char) : Bool :=
  match line with
  | [] => true
  | c :: _ => c == '#' || c == '!'

def continues (line : List Char) : Bool :=
  (line.reverse.takeWhile (· == '\\')).length % 2 == 1

/-- The entries that lines write, where `pending` is the part of an entry that
was already read. An entry whose last line is missing is no entry. -/
def entriesFrom (pending : List Char) : List (List Char) → List (List Char)
  | [] => []
  | raw :: lines =>
    if pending.isEmpty then
      let line := Text.trim raw
      if isComment line then entriesFrom [] lines
      else if continues line then entriesFrom line.dropLast lines
      else line :: entriesFrom [] lines
    else
      let line := Text.trimStart raw
      if continues line then entriesFrom (pending ++ line.dropLast) lines
      else (pending ++ line) :: entriesFrom [] lines

def keyValue? (entry : List Char) : Option (String × String) :=
  match Text.splitFirst? (fun c => c == '=' || c == ':') entry with
  | some (key, value) =>
    let key := Text.trim key
    if key.isEmpty then none else some (String.ofList key, String.ofList (Text.trim value))
  | none => none

/-- The properties that a text writes; the last value of a key counts. -/
def ofText (text : String) : Std.TreeMap String String :=
  .ofList ((entriesFrom [] (Text.linesOf text.toList)).filterMap keyValue?)

def keyStart : String := "profile."

def identifiers (properties : Std.TreeMap String String) : List String :=
  (Std.TreeMap.ofList (properties.keys.filterMap fun key =>
    ((Text.dropStart? keyStart key).bind (Text.dropEnd? ".name")).map fun id => (id, ()))).keys

/-- The longest identifier in front of a dot, and the text behind the dot; the
characters `before` were already read. -/
def ownerFrom? (isId : String → Bool) (before : List Char) : List Char → Option (String × String)
  | [] => none
  | c :: cs =>
    match ownerFrom? isId (before ++ [c]) cs with
    | some owner => some owner
    | none =>
      if c = '.' ∧ isId (String.ofList before) then
        some (String.ofList before, String.ofList cs)
      else none

def owner? (ids : List String) (key : String) : Option (String × String) :=
  (Text.dropStart? keyStart key).bind fun rest => ownerFrom? (ids.contains ·) [] rest.toList

def attributesOf (properties : Std.TreeMap String String) (ids : List String) (id : String) :
    Std.TreeMap String String :=
  .ofList (properties.toList.filterMap fun (key, value) =>
    match owner? ids key with
    | some (owner, rest) => if owner = id then some (rest, value) else none
    | none => none)

def withAttribute (p : Profile) (key value : String) : Except Error Profile :=
  match key with
  | "name" | "input" | "output" => .ok p
  | "suffix" => .ok { p with suffix := some value }
  | "mimetype" => .ok { p with mimeType := some value }
  | "jobload" =>
    match readFloat32? value with
    | some load => .ok { p with jobLoad := load }
    | none => .error (.profileText (.invalidLoad p.identifier value))
  | key =>
    match Text.dropStart? "suffix." key with
    | some tag => .ok { p with taggedSuffixes := p.taggedSuffixes.insert tag value }
    | none => .ok { p with extensions := p.extensions.insert key value }

def kindOf (id : String) (attributes : Std.TreeMap String String) (key : String) :
    Except Error MediaKind :=
  match attributes[key]? with
  | some text => MediaKind.ofText text
  | none => .error (.profileText (.missingKey id key))

def profileOf (id : String) (attributes : Std.TreeMap String String) : Except Error Profile := do
  let input ← kindOf id attributes "input"
  let output ← kindOf id attributes "output"
  let bare : Profile := { identifier := id, name := attributes["name"]?.getD id, input, output }
  attributes.toList.foldlM (fun p (key, value) => withAttribute p key value) bare

def profiles (text : String) : List (Except Error Profile) :=
  let properties := ofText text
  let ids := identifiers properties
  ids.map fun id => profileOf id (attributesOf properties ids id)

example : entriesFrom [] (Text.linesOf "# a\nb = 1\\\n  2\n\nc\\\\\nd \\".toList) =
    ["b = 12".toList, "c\\\\".toList] := by decide
example : keyValue? "a : b=c ".toList = some ("a", "b=c") := by decide
example : owner? ["a", "a.b"] "profile.a.b.c.d" = some ("a.b", "c.d") := by decide
example : owner? ["a", "a.b"] "profile.a.c" = some ("a", "c") := by decide

end Montage.Properties
