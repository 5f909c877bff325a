import Mathlib.Data.List.Basic
import Montage.Text.Search

/-!
# What a search finds

A text that was found divides what is before it from what is behind it. Where a character
stands that a pattern does not hold, the pattern cannot go on behind it, so the search is made
on either side (`find?_append_cons`).
-/

namespace Montage.Text

theorem eq_append_of_find? {pattern cs a b : List Char} (h : find? pattern cs = some (a, b)) :
    cs = a ++ pattern ++ b := by
  induction cs generalizing a with
  | nil => cases h
  | cons c cs ih =>
    rw [find?] at h
    split at h
    · rename_i rest hrest
      cases h
      exact (List.isPrefixOf?_eq_some_iff_append_eq.1 hrest).symm
    · obtain ⟨⟨a', b'⟩, hfind, hparts⟩ := Option.map_eq_some_iff.1 h
      cases hparts
      rw [ih hfind]
      rfl

theorem startsWith_iff {start s : String} :
    startsWith start s = true ↔ start.toList <+: s.toList := by
  rw [startsWith, List.isPrefixOf_iff_prefix]

theorem dropStart?_eq_some_iff {start s rest : String} :
    dropStart? start s = some rest ↔ s = start ++ rest := by
  rw [dropStart?, Option.map_eq_some_iff, ← String.toList_inj, String.toList_append]
  constructor
  · rintro ⟨cs, hcs, rfl⟩
    rw [String.toList_ofList]
    exact (List.isPrefixOf?_eq_some_iff_append_eq.1 hcs).symm
  · intro h
    exact ⟨rest.toList, List.isPrefixOf?_eq_some_iff_append_eq.2 h.symm, String.ofList_toList⟩

theorem dropEnd?_eq_some_iff {ending s rest : String} :
    dropEnd? ending s = some rest ↔ s = rest ++ ending := by
  rw [dropEnd?, Option.map_eq_some_iff, ← String.toList_inj, String.toList_append]
  constructor
  · rintro ⟨cs, hcs, rfl⟩
    rw [String.toList_ofList]
    exact (List.isSuffixOf?_eq_some_iff_append_eq.1 hcs).symm
  · intro h
    exact ⟨rest.toList, List.isSuffixOf?_eq_some_iff_append_eq.2 h.symm, String.ofList_toList⟩

theorem prefix_append_cons_iff {c : Char} {pattern a b : List Char} (h : c ∉ pattern) :
    pattern <+: a ++ c :: b ↔ pattern <+: a := by
  refine ⟨fun hstart => ?_, fun hstart => hstart.trans (List.prefix_append a _)⟩
  rcases List.prefix_or_prefix_of_prefix hstart (List.prefix_append a _) with hshort | ⟨rest, rfl⟩
  · exact hshort
  · rw [List.prefix_append_right_inj] at hstart
    cases rest with
    | nil => simp
    | cons d rest =>
      obtain ⟨rfl, _⟩ := List.cons_prefix_cons.1 hstart
      exact absurd (List.mem_append_right a List.mem_cons_self) h

theorem isPrefixOf?_eq_none_iff {pattern cs : List Char} :
    pattern.isPrefixOf? cs = none ↔ ¬ pattern <+: cs := by
  rw [← Option.not_isSome_iff_eq_none, List.isSome_isPrefixOf?_eq_isPrefixOf,
    List.isPrefixOf_iff_prefix]

theorem find?_eq_none_iff {pattern cs : List Char} (hne : pattern ≠ []) :
    find? pattern cs = none ↔ ¬ pattern <:+: cs := by
  induction cs with
  | nil => simpa [find?] using hne
  | cons c cs ih =>
    rw [find?, List.infix_cons_iff, not_or]
    cases hstart : pattern.isPrefixOf? (c :: cs) with
    | some rest =>
      have hopened : pattern <+: c :: cs := ⟨rest, List.isPrefixOf?_eq_some_iff_append_eq.1 hstart⟩
      simp [hopened]
    | none =>
      rw [Option.map_eq_none_iff, ih, ← isPrefixOf?_eq_none_iff]
      simp [hstart]

theorem find?_append_self {pattern : List Char} (hne : pattern ≠ []) (rest : List Char) :
    find? pattern (pattern ++ rest) = some ([], rest) := by
  obtain ⟨c, cs, rfl⟩ := List.exists_cons_of_ne_nil hne
  have hstart : (c :: cs).isPrefixOf? (c :: (cs ++ rest)) = some rest :=
    List.isPrefixOf?_eq_some_iff_append_eq.2 rfl
  rw [List.cons_append, find?, hstart]

/-- A pattern without the character is found on either side of it, and first in front of it. -/
theorem find?_append_cons {c : Char} {pattern : List Char} (hne : pattern ≠ []) (h : c ∉ pattern)
    (a b : List Char) :
    find? pattern (a ++ c :: b) =
      match find? pattern a with
      | some (x, y) => some (x, y ++ c :: b)
      | none => (find? pattern b).map fun (x, y) => (a ++ c :: x, y) := by
  induction a with
  | nil =>
    have hstart : pattern.isPrefixOf? (c :: b) = none := by
      rw [isPrefixOf?_eq_none_iff, ← List.nil_append (c :: b), prefix_append_cons_iff h]
      simpa using hne
    simp only [List.nil_append, find?, hstart]
  | cons d a ih =>
    rw [List.cons_append, find?, find?, ih]
    cases hstart : pattern.isPrefixOf? (d :: a) with
    | some rest =>
      have hlonger : pattern.isPrefixOf? (d :: (a ++ c :: b)) = some (rest ++ c :: b) := by
        rw [List.isPrefixOf?_eq_some_iff_append_eq, ← List.append_assoc,
          List.isPrefixOf?_eq_some_iff_append_eq.1 hstart, List.cons_append]
      rw [hlonger]
    | none =>
      have hlonger : pattern.isPrefixOf? (d :: (a ++ c :: b)) = none := by
        rw [isPrefixOf?_eq_none_iff] at hstart ⊢
        rwa [← List.cons_append, prefix_append_cons_iff h]
      rw [hlonger]
      cases find? pattern a with
      | some x => rfl
      | none => cases find? pattern b <;> rfl

end Montage.Text
