/-!
# Searching and replacing in text

Every search reads from the left and takes the first match, and a replacement
is never searched again: `replaceAll` goes on behind the text that it put in.
An empty pattern matches nowhere.
-/

namespace Montage.Text

/-- The parts before and after the first character that satisfies `p`. -/
def splitFirst? (p : Char → Bool) : List Char → Option (List Char × List Char)
  | [] => none
  | c :: cs => if p c then some ([], cs) else (splitFirst? p cs).map fun (a, b) => (c :: a, b)

theorem splitFirst?_eq_some {p : Char → Bool} {cs a b : List Char}
    (h : splitFirst? p cs = some (a, b)) :
    (∀ c ∈ a, p c = false) ∧ ∃ c, p c = true ∧ cs = a ++ c :: b := by
  induction cs generalizing a with
  | nil => simp [splitFirst?] at h
  | cons c cs ih =>
    rw [splitFirst?] at h
    split at h
    · rename_i hc
      obtain ⟨rfl, rfl⟩ := by simpa using h
      exact ⟨by simp, c, hc, rfl⟩
    · rename_i hc
      obtain ⟨⟨a', b'⟩, hs, hab⟩ := Option.map_eq_some_iff.1 h
      obtain ⟨rfl, rfl⟩ := by simpa using hab
      obtain ⟨ha, d, hd, rfl⟩ := ih hs
      exact ⟨by simpa [hc] using ha, d, hd, rfl⟩

theorem splitFirst?_append {p : Char → Bool} {a b : List Char} {c : Char}
    (ha : ∀ x ∈ a, p x = false) (hc : p c = true) :
    splitFirst? p (a ++ c :: b) = some (a, b) := by
  induction a with
  | nil => simp [splitFirst?, hc]
  | cons x a ih =>
    have hx : p x = false := ha x (by simp)
    simp [splitFirst?, hx, ih fun y hy => ha y (by simp [hy])]

theorem splitFirst?_append_of_not_mem {c : Char} {a : List Char} (h : c ∉ a) (b : List Char) :
    splitFirst? (· == c) (a ++ c :: b) = some (a, b) := by
  apply splitFirst?_append
  · intro d hd
    rw [beq_eq_false_iff_ne]
    rintro rfl
    exact h hd
  · exact beq_self_eq_true c

theorem splitFirst?_eq_none_iff {p : Char → Bool} {cs : List Char} :
    splitFirst? p cs = none ↔ ∀ c ∈ cs, p c = false := by
  induction cs with
  | nil => simp [splitFirst?]
  | cons c cs ih =>
    rw [splitFirst?]
    split <;> simp_all

def cut? (c : Char) (s : String) : Option (String × String) :=
  (splitFirst? (· == c) s.toList).map fun (a, b) => (String.ofList a, String.ofList b)

/-- The parts between the occurrences of the character `c`, at least one. -/
def splitAll (c : Char) : List Char → List (List Char)
  | [] => [[]]
  | d :: cs =>
    if d = c then [] :: splitAll c cs
    else
      match splitAll c cs with
      | [] => [[d]]
      | part :: parts => (d :: part) :: parts

def split (c : Char) (s : String) : List String := (splitAll c s.toList).map String.ofList

/-- The text behind the first occurrence of `pattern`, with the text before it. -/
def find? (pattern : List Char) : List Char → Option (List Char × List Char)
  | [] => none
  | c :: cs =>
    match pattern.isPrefixOf? (c :: cs) with
    | some rest => some ([], rest)
    | none => (find? pattern cs).map fun (a, b) => (c :: a, b)

def between? (pattern s : String) : Option String :=
  (find? pattern.toList s.toList).map fun (_, rest) =>
    String.ofList (((find? pattern.toList rest).map (·.1)).getD rest)

/-- Replaces the occurrences of the non-empty text `first :: pattern`; `skip`
characters of an occurrence are still to be passed over. -/
def replaceFrom (first : Char) (pattern new : List Char) : Nat → List Char → List Char
  | _, [] => []
  | skip + 1, _ :: cs => replaceFrom first pattern new skip cs
  | 0, c :: cs =>
    if (first :: pattern).isPrefixOf (c :: cs) then
      new ++ replaceFrom first pattern new pattern.length cs
    else c :: replaceFrom first pattern new 0 cs

def replaceAll (pattern new : List Char) (cs : List Char) : List Char :=
  match pattern with
  | [] => cs
  | first :: pattern => replaceFrom first pattern new 0 cs

def replaced (pattern new s : String) : String :=
  String.ofList (replaceAll pattern.toList new.toList s.toList)

/-- Puts `new` in the place of the first occurrence of `pattern` only. -/
def replaceFirst (pattern new cs : List Char) : List Char :=
  match find? pattern cs with
  | some (a, b) => a ++ new ++ b
  | none => cs

def startsWith (start s : String) : Bool := start.toList.isPrefixOf s.toList

def endsWith (ending s : String) : Bool := ending.toList.isSuffixOf s.toList

def contains (pattern s : String) : Bool := (find? pattern.toList s.toList).isSome || pattern.isEmpty

def dropStart? (start s : String) : Option String :=
  (start.toList.isPrefixOf? s.toList).map String.ofList

def dropEnd? (ending s : String) : Option String :=
  (ending.toList.isSuffixOf? s.toList).map String.ofList

/-- The lines of a text. A line ends with a line feed, which a carriage return
may precede; the last line needs no end, and then keeps its carriage return. -/
def linesOf : List Char → List (List Char)
  | [] => []
  | '\n' :: cs => [] :: linesOf cs
  | '\r' :: '\n' :: cs => [] :: linesOf cs
  | c :: cs =>
    match linesOf cs with
    | [] => [[c]]
    | line :: lines => (c :: line) :: lines

def lines (s : String) : List String := (linesOf s.toList).map String.ofList

example : lines "a\r\n\nb\r" = ["a", "", "b\r"] := by decide
example : replaced "aa" "b" "aaaca" = "baca" := by decide
example : split ',' ",a" = ["", "a"] := by decide
example : between? "ab" "xabyabz" = some "y" ∧ between? "b" "abc" = some "c" := by decide

/-- The ASCII capitals of a text in lower case; every other character stays. -/
def lowerAscii (s : String) : String := String.ofList (s.toList.map Char.toLower)

end Montage.Text
