import Montage.Proofs.CommandText
import Montage.Proofs.Graph.GraphText

/-!
# The characters of filters

The filters that are made here are written with numbers, names and the characters
that stand between them. None of these divides a graph or a command line, so it is
enough to look at the characters of a filter once.
-/

namespace Montage

def isFilterChar (c : Char) : Bool := isNumeralChar c || "=,:*/()\\".toList.contains c

def IsFilterText (s : String) : Prop := ∀ c ∈ s.toList, isFilterChar c = true

instance (s : String) : Decidable (IsFilterText s) :=
  List.decidableBAll (fun c => isFilterChar c = true) s.toList

theorem isFilterText_append_iff {a b : String} :
    IsFilterText (a ++ b) ↔ IsFilterText a ∧ IsFilterText b := by
  unfold IsFilterText
  rw [String.toList_append, List.forall_mem_append]

theorem IsFilterText.append {a b : String} (ha : IsFilterText a) (hb : IsFilterText b) :
    IsFilterText (a ++ b) :=
  isFilterText_append_iff.2 ⟨ha, hb⟩

theorem IsNumeral.isFilterText {s : String} (h : IsNumeral s) : IsFilterText s := by
  intro c hc
  rw [isFilterChar, h c hc, Bool.true_or]

theorem isFilterText_toString (n : Nat) : IsFilterText (toString n) :=
  (isNumeral_toString n).isFilterText

theorem isFilterText_toString_int (n : Int) : IsFilterText (toString n) :=
  (isNumeral_toString_int n).isFilterText

theorem IsFilterText.ne {s : String} (h : IsFilterText s) {c d : Char} (hc : c ∈ s.toList)
    (hd : isFilterChar d = false) : c ≠ d := by
  rintro rfl
  rw [h c hc] at hd
  cases hd

theorem isBlank_of_isFilterChar {c : Char} (h : isFilterChar c = true) :
    Text.isBlank c = false := by
  rw [isFilterChar, Bool.or_eq_true] at h
  rcases h with hnumeral | hmark
  · exact isBlank_of_isNumeralChar hnumeral
  · have hall : "=,:*/()\\".toList.all (!Text.isBlank ·) = true := by decide
    simpa using List.all_eq_true.1 hall c (List.contains_iff_mem.1 hmark)

theorem IsFilterText.isInert {s : String} (h : IsFilterText s) : IsInert s := fun c hc =>
  ⟨isBlank_of_isFilterChar (h c hc), h.ne hc (by decide), h.ne hc (by decide),
    h.ne hc (by decide)⟩

end Montage
