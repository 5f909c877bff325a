import Montage.Json.Basic

/-!
# Reading objects field by field

A reader of an object knows some fields. Each of them has its own reader, may
stand only once, and may have a value for when it is missing. Members that are
no fields are the reader's own business, but every key has to be a text.
-/

namespace Montage.Json

/-- The members of an object, if all keys are texts. -/
def members? : Json → Option (List (String × Json))
  | object members => members.mapM fun (key, value) => key.map fun key => (key, value)
  | _ => none

def texts? (members : List (String × Json)) : Option (List (String × String)) :=
  members.mapM fun (key, value) => value.text?.map fun text => (key, text)

def optional? {α : Type} (read : Json → Option α) : Json → Option (Option α)
  | null => some none
  | value => (read value).map some

def field? {α : Type} (read : Json → Option α) (default : Option α) (name : String)
    (members : List (String × Json)) : Option α :=
  match members.lookup name with
  | some value => read value
  | none => default

def fieldsOnce (fields : List String) (members : List (String × Json)) : Bool :=
  fields.all fun name => members.countP (·.1 == name) ≤ 1

end Montage.Json
