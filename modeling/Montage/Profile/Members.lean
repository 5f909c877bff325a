import Montage.Json.Object
import Montage.Json.Reading
import Montage.Profile.Basic

/-!
# Profiles as JSON

An object holds the profiles by their identifiers, each an object. The fields of
a profile have their own types and stand at most once; every other member is an
extension, and a string. Of extensions and profiles with the same key the last
counts, but all of them have to be readable.
-/

namespace Montage.Profile

def fields : List String :=
  ["identifier", "name", "input", "output", "suffix", "suffixes", "mimetype", "jobload"]

def kind? (value : Json) : Option MediaKind :=
  value.text?.bind fun text => (MediaKind.ofText text).toOption

/-- The profile that an object describes; it is named after its identifier if
it has no name of its own. -/
def ofJson? (id : String) (value : Json) : Option Profile := do
  let members ← value.members?
  if !Json.fieldsOnce fields members then none
  let _ ← Json.field? Json.text? (some "") "identifier" members
  let name ← Json.field? Json.text? (some "") "name" members
  let input ← Json.field? kind? none "input" members
  let output ← Json.field? kind? none "output" members
  let suffix ← Json.field? (Json.optional? Json.text?) (some none) "suffix" members
  let suffixes ← Json.field? (fun v => v.members?.bind Json.texts?) (some []) "suffixes" members
  let mimeType ← Json.field? (Json.optional? Json.text?) (some none) "mimetype" members
  let jobLoad ← Json.field? Json.single? (some 1) "jobload" members
  let extensions ← Json.texts? (members.filter fun (key, _) => !fields.contains key)
  return {
    identifier := id
    name := if name.isEmpty then id else name
    input, output, suffix, mimeType, jobLoad
    taggedSuffixes := .ofList suffixes
    extensions := .ofList extensions }

def ofJsonText (text : String) : Except Error (Std.TreeMap String Profile) :=
  let profiles? : Option (List (String × Profile)) := do
    (← (← Json.ofText? text).members?).mapM fun (id, value) =>
      (ofJson? id value).map fun p => (id, p)
  match profiles? with
  | some profiles => .ok (.ofList profiles)
  | none => .error (.profileText .invalidJson)

end Montage.Profile
