import Montage.Text.Search
import Montage.Text.Digit

/-!
# Pads of a filter graph

A pad is a bracketed name that a clause of a filter graph writes or reads.
Pads are compared as they are spelled, since that is all an encoder sees: two
pads that are spelled alike are one pad, whatever they were made for.

A reference to a stream of an input file, such as `[0:v]`, can also be used
outside a graph, where it goes without brackets.
-/

namespace Montage

inductive StreamKind where
  | video
  | audio
  deriving DecidableEq, Repr

namespace StreamKind

def letter : StreamKind → Char
  | video => 'v'
  | audio => 'a'

/-- What filters of the kind have in front of their names. -/
def mark : StreamKind → String
  | video => ""
  | audio => "a"

end StreamKind

/-- A pad as it is spelled, brackets included. -/
structure Pad where
  text : String
  deriving DecidableEq, Repr

namespace Pad

def named (name : String) : Pad := ⟨"[" ++ name ++ "]"⟩

def stream (input : Nat) (kind : Char) : Pad := named (toString input ++ ":" ++ kind.toString)

/-- What is between the brackets of a reference to a stream of an input file:
digits, a colon, and `a`, `v` or one or two digits. -/
def rawStream? (text : List Char) : Option (List Char) :=
  match text with
  | '[' :: cs =>
    match Text.splitFirst? (· == ']') cs with
    | some (inner, []) =>
      match Text.splitFirst? (· == ':') inner with
      | some (file, stream) =>
        let known := stream == ['a'] || stream == ['v'] ||
          (stream.all Text.isDigit && (stream.length == 1 || stream.length == 2))
        if file ≠ [] ∧ file.all Text.isDigit ∧ known then some inner else none
      | none => none
    | _ => none
  | _ => none

/-- The pad as the value of a `-map` option: a stream of an input file goes
without brackets. -/
def mapValue (p : Pad) : String :=
  match rawStream? p.text.toList with
  | some inner => String.ofList inner
  | none => p.text

/-- The name at the width and letter of an index: the letters `b` to `z` once,
then all of them twice, and so on. -/
def letterName (index : Nat) : String :=
  String.ofList (List.replicate (index / 25 + 1) (Char.ofNat ('b'.toNat + index % 25)))

/-- The bracketed names in a text, in order. -/
def namesIn : List Char → List (List Char)
  | [] => []
  | c :: cs =>
    if c = '[' then
      let inside (d : Char) := d != '[' && d != ']'
      match cs.takeWhile inside, cs.dropWhile inside with
      | n :: ns, ']' :: _ => (n :: ns) :: namesIn cs
      | _, _ => namesIn cs
    else namesIn cs

def names (graph : String) : List String := (namesIn graph.toList).map String.ofList

example : (stream 0 'v').mapValue = "0:v" ∧ (named "ov").mapValue = "[ov]" := by decide
example : (named "0:12").mapValue = "0:12" ∧ (named "0:123").mapValue = "[0:123]" := by decide
example : letterName 24 = "z" ∧ letterName 25 = "bb" ∧ letterName 50 = "bbb" := by decide
example : names "[0:v]scale[a];[[]]" = ["0:v", "a"] := by decide

end Pad

end Montage
