import Montage.Error
import Montage.Text.Blank

/-!
# Words of a command line

`tokenize` is the strict reading of a profile's command line. Blanks separate
words. Single and double quotes group text and are removed, and text that
touches a group belongs to the same word, so `''` alone is an empty word. A
backslash escapes a quote behind it (inside double quotes only a double one);
every other backslash stays, because filter expressions have escapes of their
own. Quotes have to be closed.

The scan needs no accumulator: reading a character puts it in front of what the
rest of the text begins with. A `Scan` is that beginning of a word, if the text
begins with one, and the words behind it.

`splitLoose` knows only whole quoted words and never fails; a quote that is not
closed, or that touches other text, is an ordinary character.
-/

namespace Montage.Words

inductive Quoting where
  | bare
  | single
  | double
  deriving DecidableEq, Repr

/-- What a text holds when it is read from some point on: the rest of the word
at that point, if there is one, and the words behind it. -/
structure Scan where
  word : Option (List Char)
  later : List (List Char)
  deriving DecidableEq, Repr

namespace Scan

def done : Scan := ⟨none, []⟩

def extend (c : Char) (s : Scan) : Scan := ⟨some (c :: s.word.getD []), s.later⟩

/-- A word begins here, whatever follows. -/
def opened (s : Scan) : Scan := ⟨some (s.word.getD []), s.later⟩

def words (s : Scan) : List (List Char) := s.word.toList ++ s.later

/-- A blank in front: the word behind it is not the one that the blank ends. -/
def ended (s : Scan) : Scan := ⟨none, s.words⟩

end Scan

/-- Reads a text inside the given quotes; nothing if they are not closed. -/
def scan : Quoting → List Char → Option Scan
  | .bare, [] => some .done
  | .single, [] => none
  | .double, [] => none
  | .single, '\'' :: cs => scan .bare cs
  | .single, c :: cs => (scan .single cs).map (Scan.extend c)
  | .double, '\\' :: '"' :: cs => (scan .double cs).map (Scan.extend '"')
  | .double, '"' :: cs => scan .bare cs
  | .double, c :: cs => (scan .double cs).map (Scan.extend c)
  | .bare, '\\' :: '\'' :: cs => (scan .bare cs).map (Scan.extend '\'')
  | .bare, '\\' :: '"' :: cs => (scan .bare cs).map (Scan.extend '"')
  | .bare, '\'' :: cs => (scan .single cs).map Scan.opened
  | .bare, '"' :: cs => (scan .double cs).map Scan.opened
  | .bare, c :: cs =>
    (scan .bare cs).map (if Text.isBlank c then Scan.ended else Scan.extend c)

/-- The words of a command line, if its quotes are closed. -/
def ofLine? (line : String) : Option (List String) :=
  (scan .bare line.toList).map fun s => s.words.map String.ofList

def tokenize (line : String) : Except Error (List String) :=
  match ofLine? line with
  | some words => .ok words
  | none => .error (.template (.unbalancedQuotes line))

/-- The loose words behind `skip` characters that belong to one already read. -/
def looseFrom : Nat → List Char → List (List Char)
  | _, [] => []
  | skip + 1, _ :: cs => looseFrom skip cs
  | 0, c :: cs =>
    match (if c = '"' ∨ c = '\'' then Text.splitFirst? (· == c) cs else none) with
    | some (inner, _) => inner :: looseFrom (inner.length + 1) cs
    | none =>
      if Text.isBlank c then looseFrom 0 cs
      else
        let run := cs.takeWhile (!Text.isBlank ·)
        (c :: run) :: looseFrom run.length cs

def splitLoose (line : String) : List String := (looseFrom 0 line.toList).map String.ofList

theorem looseFrom_eq_drop (skip : Nat) (cs : List Char) :
    looseFrom skip cs = looseFrom 0 (cs.drop skip) := by
  induction skip generalizing cs with
  | zero => rfl
  | succ skip ih =>
    cases cs with
    | nil => rfl
    | cons c cs => exact ih cs

theorem tokenize_eq_ok_iff {line : String} {words : List String} :
    tokenize line = .ok words ↔ ofLine? line = some words := by
  unfold tokenize
  split <;> simp_all

example : ofLine? "a 'b c'\"d\" '' e\\'f \\," = some ["a", "b cd", "", "e'f", "\\,"] := by decide
example : ofLine? "'a" = none ∧ ofLine? "\"a\\\"" = none := by decide
example : splitLoose "\"a b\"c 'd\" it's" = ["a b", "c", "d\" it", "s"] := by decide

end Montage.Words
