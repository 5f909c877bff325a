/-!
# Blank characters

A character is blank when Unicode gives it the property `White_Space`: the
ASCII blanks, the two Latin-1 ones (`U+0085`, `U+00A0`) and the spaces and
separators above them. Command lines, property files and playlists all use
this one class, so the trimming functions stand here as well.

`trimEnd` recurses from the right without reversing: a blank is dropped when
nothing is left behind it.
-/

namespace Montage.Text

/-- A character of the Unicode property `White_Space`. -/
def isBlank (c : Char) : Bool :=
  let n := c.toNat
  (9 ≤ n && n ≤ 13) || n == 0x20 || n == 0x85 || n == 0xA0 || n == 0x1680
    || (0x2000 ≤ n && n ≤ 0x200A) || n == 0x2028 || n == 0x2029 || n == 0x202F
    || n == 0x205F || n == 0x3000

example : "\t\n\x0b\x0c\r ".toList.all isBlank = true := by decide
example : isBlank '\u200b' = false ∧ isBlank '\ufeff' = false := by decide

def trimStart (cs : List Char) : List Char := cs.dropWhile isBlank

def trimEnd : List Char → List Char
  | [] => []
  | c :: cs =>
    match trimEnd cs with
    | [] => if isBlank c then [] else [c]
    | d :: ds => c :: d :: ds

def trim (cs : List Char) : List Char := trimEnd (trimStart cs)

def trimmed (s : String) : String := String.ofList (trim s.toList)

def isBlankText (s : String) : Bool := s.toList.all isBlank

@[simp] theorem trimEnd_nil : trimEnd [] = [] := rfl

theorem trimEnd_cons_of_not_isBlank {c : Char} (h : isBlank c = false) (cs : List Char) :
    trimEnd (c :: cs) = c :: trimEnd cs := by
  rw [trimEnd]
  split <;> simp_all

theorem trimEnd_eq_nil_iff {cs : List Char} : trimEnd cs = [] ↔ ∀ c ∈ cs, isBlank c = true := by
  induction cs with
  | nil => simp
  | cons c cs ih =>
    rw [trimEnd]
    split
    · rename_i h
      by_cases hc : isBlank c = true <;> simp_all
    · rename_i d ds h
      have hne : trimEnd cs ≠ [] := by simp [h]
      rw [ne_eq, ih] at hne
      simp only [List.mem_cons, forall_eq_or_imp, false_iff, not_and, reduceCtorEq]
      exact fun _ => hne

end Montage.Text
