import Mathlib.Data.Nat.Digits.Defs
import Mathlib.Data.String.Basic

/-!
# Decimal numbers as text

Numbers are compared as text where they are part of a name. `textOrder count` lists
the numbers below `count` in that order. It is the order of the numbers themselves as
long as there is one digit only (`textOrder_eq_range_iff`): after that `10` stands
before `2`. Names that differ in their numbers alone are in the order of the numbers'
texts, provided that a character below the digits ends the number
(`numbered_le_numbered_iff`).
-/

namespace Montage

theorem isDigit_of_mem_toString {i : Nat} {c : Char} (h : c ∈ (toString i).toList) :
    c.isDigit = true := by
  rw [Nat.toString_eq_ofList_toDigits, String.toList_ofList] at h
  exact Nat.isDigit_of_mem_toDigits (by decide) (by decide) h

theorem not_mem_toString {i : Nat} {c : Char} (h : c.isDigit = false) : c ∉ (toString i).toList := by
  intro hc
  rw [isDigit_of_mem_toString hc] at h
  cases h

/-- The numbers below `count` in the order of their texts. -/
def textOrder (count : Nat) : List Nat :=
  (List.range count).mergeSort fun i j => toString i ≤ toString j

theorem textOrder_perm (count : Nat) : (textOrder count).Perm (List.range count) :=
  List.mergeSort_perm _ _

theorem mem_textOrder {count i : Nat} : i ∈ textOrder count ↔ i < count := by
  rw [(textOrder_perm count).mem_iff, List.mem_range]

theorem pairwise_mergeSort_text {α : Type} (text : α → String) (l : List α) :
    (l.mergeSort fun a b => text a ≤ text b).Pairwise fun a b => text a ≤ text b := by
  have hsorted : (l.mergeSort fun a b => text a ≤ text b).Pairwise
      fun a b => decide (text a ≤ text b) = true := by
    apply List.pairwise_mergeSort
    · intro a b c hab hbc
      exact decide_eq_true (le_trans (of_decide_eq_true hab) (of_decide_eq_true hbc))
    · intro a b
      simpa using le_total (text a) (text b)
  exact hsorted.imp of_decide_eq_true

theorem pairwise_textOrder (count : Nat) :
    (textOrder count).Pairwise fun i j => toString i ≤ toString j :=
  pairwise_mergeSort_text _ _

/-- Numbers and their texts have one order exactly up to the first number of two digits. -/
theorem textOrder_eq_range_iff {count : Nat} : textOrder count = List.range count ↔ count ≤ 10 := by
  constructor
  · intro h
    by_contra hcount
    have hsorted := pairwise_textOrder count
    rw [h, List.pairwise_iff_getElem] at hsorted
    have hwrong := hsorted 2 10 (by simp; omega) (by simp; omega) (by decide)
    rw [List.getElem_range, List.getElem_range] at hwrong
    exact absurd hwrong (by decide)
  · intro hcount
    have hten : (List.range 10).Pairwise fun i j => toString i ≤ toString j := by decide +kernel
    apply List.mergeSort_of_pairwise
    have hsorted := hten.sublist (List.range_sublist.2 hcount)
    exact hsorted.imp decide_eq_true

theorem append_lt_append_iff (front : List Char) {a b : List Char} :
    front ++ a < front ++ b ↔ a < b := by
  induction front with
  | nil => rfl
  | cons c front ih => simp [ih]

theorem append_cons_lt_iff {c : Char} {a b back : List Char} (ha : ∀ d ∈ a, c < d)
    (hb : ∀ d ∈ b, c < d) : a ++ c :: back < b ++ c :: back ↔ a < b := by
  induction a generalizing b with
  | nil =>
      cases b with
      | nil => simp
      | cons d b =>
          have hd := hb d List.mem_cons_self
          simp [List.cons_lt_cons_iff, hd]
  | cons x a ih =>
      have hx := ha x List.mem_cons_self
      cases b with
      | nil => simp [List.cons_lt_cons_iff, not_lt_of_gt hx, hx.ne']
      | cons d b =>
          have hrest := ih (b := b) (fun d hd => ha d (List.mem_cons_of_mem _ hd))
            (fun d hd => hb d (List.mem_cons_of_mem _ hd))
          simp [List.cons_lt_cons_iff, hrest]

theorem lt_of_mem_toString {i : Nat} {c d : Char} (hc : c < '0') (h : d ∈ (toString i).toList) :
    c < d := by
  have hdigit := isDigit_of_mem_toString h
  simp only [Char.isDigit, Bool.and_eq_true, decide_eq_true_eq] at hdigit
  exact lt_of_lt_of_le hc hdigit.1

/-- Names that differ in their numbers are in the order of the numbers' texts. -/
theorem numbered_le_numbered_iff (front back : String) {mark : String} {c : Char}
    (hmark : mark.toList = [c]) (hc : c < '0') {i j : Nat} :
    front ++ toString i ++ mark ++ back ≤ front ++ toString j ++ mark ++ back ↔
      toString i ≤ toString j := by
  rw [String.le_iff_toList_le, String.le_iff_toList_le, ← not_lt, ← not_lt, not_iff_not]
  simp only [String.toList_append, List.append_assoc, append_lt_append_iff, hmark,
    List.singleton_append]
  exact append_cons_lt_iff (fun d => lt_of_mem_toString hc) (fun d => lt_of_mem_toString hc)

end Montage
