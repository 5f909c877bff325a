import Montage.Json.Object

/-!
# Records

A record is a value with named fields in an order. It is written as an object,
where the names tell which value belongs to which field, or as an array, where
the order does. A `Schema` says which fields there are and which values each of
them admits; a record that does not follow its schema is none at all, so what is
read out of one later has its type.

An object may have members that are no fields; they are passed over unread. An
array holds the fields and nothing else.
-/

namespace Montage.Json

/-- Where a field may be missing. -/
inductive Absence where
  | nowhere
  /-- In an object; in an array the field is null instead. -/
  | inObject
  /-- In an object, and at the end of an array. -/
  | anywhere
  deriving DecidableEq, Repr

structure Field where
  name : String
  /-- Whether a value may stand in the field. -/
  admits : Json → Bool
  absence : Absence

/-- The fields of a record, in the order in which an array has them. -/
abbrev Schema := List Field

def fieldsOf (absence : Absence) (admits : Json → Bool) (names : List String) : Schema :=
  names.map (⟨·, admits, absence⟩)

/-- The elements of an array under the names of the fields they stand for. -/
def Schema.aligned? : Schema → List Json → Option (List (String × Json))
  | schema, [] => if schema.all (·.absence = .anywhere) then some [] else none
  | [], _ :: _ => none
  | field :: schema, value :: values =>
    (aligned? schema values).map ((field.name, value) :: ·)

/-- Members have the fields of a schema, each at most once. -/
def Schema.admits (schema : Schema) (members : List (String × Json)) : Bool :=
  fieldsOnce (schema.map (·.name)) members &&
    schema.all fun field =>
      match members.lookup field.name with
      | some value => field.admits value
      | none => field.absence ≠ .nowhere

def record? (schema : Schema) (value : Json) : Option (List (String × Json)) := do
  let members ←
    match value with
    | .array values => schema.aligned? values
    | value => value.members?
  if schema.admits members then some members else none

def isRecord (schema : Schema) (value : Json) : Bool := (record? schema value).isSome

def isNullOr (admits : Json → Bool) : Json → Bool
  | null => true
  | value => admits value

def isListOf (admits : Json → Bool) : Json → Bool
  | array values => values.all admits
  | _ => false

def isText (value : Json) : Bool := value.text?.isSome

def isInteger (value : Json) : Bool := value.integer?.isSome

example : isRecord (fieldsOf .nowhere isText ["kind"]) (.array [.ofString "a"]) = true ∧
    isRecord (fieldsOf .nowhere isText ["kind"]) (.array []) = false ∧
    isRecord (fieldsOf .inObject (isNullOr isText) ["kind"]) (.object []) = true ∧
    isRecord (fieldsOf .inObject (isNullOr isText) ["kind"]) (.array []) = false := by decide

end Montage.Json
