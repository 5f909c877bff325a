import Montage.Number.Fixed
import Montage.Number.Shortest
import Montage.Proofs.Text.Decimal
import Montage.Text.Blank

/-!
# The characters of numbers

Numbers are written with letters, digits, signs and points, whatever they are: an
exponent has a sign of its own, and infinities and NaN have names. So a number can
stand where other characters have a meaning.
-/

namespace Montage

theorem isAlphanum_iff {c : Char} : c.isAlphanum = true ↔
    (65 ≤ c.toNat ∧ c.toNat ≤ 90) ∨ (97 ≤ c.toNat ∧ c.toNat ≤ 122) ∨
      (48 ≤ c.toNat ∧ c.toNat ≤ 57) := by
  change ((decide (65 ≤ c.val ∧ c.val ≤ 90) || (decide (97 ≤ c.val) && decide (c.val ≤ 122))) ||
    (decide (48 ≤ c.val) && decide (c.val ≤ 57))) = true ↔ _
  simp only [Bool.or_eq_true, Bool.and_eq_true, decide_eq_true_eq, UInt32.le_iff_toNat_le, or_assoc]
  rfl

def isNumeralChar (c : Char) : Bool := c.isAlphanum || c == '-' || c == '+' || c == '.'

theorem isBlank_of_isNumeralChar {c : Char} (h : isNumeralChar c = true) :
    Text.isBlank c = false := by
  simp only [isNumeralChar, Bool.or_eq_true, beq_iff_eq] at h
  rcases h with ((halphanum | rfl) | rfl) | rfl
  · have hcode := isAlphanum_iff.1 halphanum
    simp [Text.isBlank]
    omega
  · decide
  · decide
  · decide

def IsNumeral (s : String) : Prop := ∀ c ∈ s.toList, isNumeralChar c = true

instance (s : String) : Decidable (IsNumeral s) :=
  List.decidableBAll (fun c => isNumeralChar c = true) s.toList

theorem IsNumeral.ne {s : String} (h : IsNumeral s) {c d : Char} (hc : c ∈ s.toList)
    (hd : isNumeralChar d = false) : c ≠ d := by
  rintro rfl
  rw [h c hc] at hd
  cases hd

theorem isNumeral_of_isAlphanum {s : String} (h : ∀ c ∈ s.toList, c.isAlphanum = true) :
    IsNumeral s := by
  intro c hc
  simp [isNumeralChar, h c hc]

theorem IsNumeral.append {a b : String} (ha : IsNumeral a) (hb : IsNumeral b) :
    IsNumeral (a ++ b) := by
  intro c hc
  rw [String.toList_append, List.mem_append] at hc
  exact hc.elim (ha c) (hb c)

theorem isNumeral_toString (n : Nat) : IsNumeral (toString n) := by
  apply isNumeral_of_isAlphanum
  intro c hc
  rw [Char.isAlphanum, isDigit_of_mem_toString hc, Bool.or_true]

theorem isNumeral_toString_int (n : Int) : IsNumeral (toString n) := by
  cases n with
  | ofNat n => exact isNumeral_toString n
  | negSucc n =>
    have hsign : IsNumeral "-" := by decide
    exact hsign.append (isNumeral_toString (n + 1))

theorem isNumeral_leftpad (n places : Nat) :
    IsNumeral (String.ofList ((toString n).toList.leftpad places '0')) := by
  intro c hc
  rw [String.toList_ofList, List.leftpad, List.mem_append] at hc
  rcases hc with hzero | hdigit
  · rw [List.eq_of_mem_replicate hzero]
    decide
  · exact isNumeral_toString n c hdigit

theorem isNumeral_pointed (n places : Nat) : IsNumeral (pointed n places) := by
  unfold pointed
  split
  · exact isNumeral_toString n
  · exact ((isNumeral_toString _).append (by decide)).append (isNumeral_leftpad _ _)

theorem isNumeral_fixed (places : Nat) (x : Binary) : IsNumeral (x.fixed places) := by
  have hsign : IsNumeral x.sign := by
    unfold Binary.sign
    split <;> decide
  refine hsign.append ?_
  unfold Binary.fixedMagnitude
  split
  · exact isNumeral_pointed _ _
  · decide
  · decide

namespace DecimalLayout

variable (layout : DecimalLayout)

theorem isNumeral_plainText (d : Decimal) : IsNumeral (layout.plainText d) := by
  unfold plainText
  split
  · refine (isNumeral_toString _).append ?_
    split <;> decide
  · exact ((isNumeral_toString _).append (by decide)).append (isNumeral_leftpad _ _)

theorem isNumeral_exponentText (d : Decimal) : IsNumeral (layout.exponentText d) := by
  have hmark : IsNumeral (if layout.signsExponent && 0 ≤ d.exponent +
      (Decimal.width d.digits - 1 : Nat) then "e+" else "e") := by
    split <;> decide
  have hdigits := isNumeral_toString d.digits
  unfold exponentText
  split
  · decide
  · rename_i c hc
    rw [IsNumeral, hc] at hdigits
    refine (IsNumeral.append ?_ hmark).append (isNumeral_toString_int _)
    simpa [IsNumeral] using hdigits
  · rename_i c cs hcs hc
    rw [IsNumeral, hc] at hdigits
    refine (IsNumeral.append ?_ hmark).append (isNumeral_toString_int _)
    intro d hd
    rw [String.toList_ofList] at hd
    rcases List.mem_cons.1 hd with rfl | hd
    · exact hdigits d List.mem_cons_self
    · rcases List.mem_cons.1 hd with rfl | hd
      · decide
      · exact hdigits d (List.mem_cons_of_mem _ hd)

theorem isNumeral_text (d : Decimal) : IsNumeral (layout.text d) := by
  unfold text
  dsimp only
  split
  · exact layout.isNumeral_plainText d
  · split
    · exact layout.isNumeral_plainText d
    · exact layout.isNumeral_exponentText d

theorem isNumeral_render (f : BinaryFormat) (x : Binary) : IsNumeral (layout.render f x) := by
  have hsign (negative : Bool) : IsNumeral (if negative then "-" else "") := by
    split <;> decide
  unfold render
  split
  · decide
  · exact (hsign _).append (by decide)
  · refine (hsign _).append ?_
    split
    · split <;> decide
    · exact layout.isNumeral_text _

end DecimalLayout

end Montage
