import Montage.Text.Search
import Std.Data.TreeMap

/-!
# Command templates

A template is text with placeholders `#{key}`. The two characters `#{` begin
one, the next closing brace ends it, and everything between is the key, whatever
it holds. Where no closing brace follows there is no placeholder.

A template is first cut into pieces and each piece is then resolved on its own.
So a value that was put in is never read again, and values cannot run into the
text around them.

A placeholder without a value disappears. Templates rely on that for parts that
are optional.
-/

namespace Montage

abbrev Parameters := Std.TreeMap String String

namespace Template

/-- A character of a template, or a placeholder. -/
inductive Piece where
  | literal (c : Char)
  | hole (key : List Char)
  deriving DecidableEq, Repr

/-- The pieces of a template behind `skip` characters that belong to a
placeholder already read. -/
def piecesFrom : Nat → List Char → List Piece
  | _, [] => []
  | skip + 1, _ :: cs => piecesFrom skip cs
  | 0, c :: cs =>
    match c, cs with
    | '#', '\x7b' :: rest =>
      match Text.splitFirst? (· == '\x7d') rest with
      | some (key, _) => .hole key :: piecesFrom (key.length + 2) cs
      | none => .literal c :: piecesFrom 0 cs
    | _, _ => .literal c :: piecesFrom 0 cs

def pieces (template : List Char) : List Piece := piecesFrom 0 template

/-- The key of the placeholder that is a single space when it has no value. -/
def spaceKey : String := "space"

def Piece.resolve (params : Parameters) : Piece → List Char
  | literal c => [c]
  | hole key =>
    match params[String.ofList key]? with
    | some value => value.toList
    | none => if String.ofList key = spaceKey then [' '] else []

def substitute (params : Parameters) (template : String) : String :=
  String.ofList ((pieces template.toList).flatMap (Piece.resolve params))

@[simp] theorem piecesFrom_nil (skip : Nat) : piecesFrom skip [] = [] := by
  cases skip <;> rfl

/-- Passing over characters is dropping them. -/
theorem piecesFrom_eq_drop (skip : Nat) (cs : List Char) :
    piecesFrom skip cs = pieces (cs.drop skip) := by
  induction skip generalizing cs with
  | zero => rfl
  | succ skip ih =>
    cases cs with
    | nil => rfl
    | cons c cs => exact ih cs

def placeholder (key : String) : String := "#\x7b" ++ key ++ "\x7d"

example : pieces "a#\x7bb#\x7b\x7d#".toList =
    [.literal 'a', .hole ['b', '#', '\x7b'], .literal '#'] := by decide
example : pieces "#\x7ba".toList = [.literal '#', .literal '\x7b', .literal 'a'] := by decide

end Template

end Montage
