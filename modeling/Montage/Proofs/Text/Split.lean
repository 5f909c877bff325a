import Montage.Text.Search

/-!
# Cutting a text at a character

The parts of a text between the occurrences of a character. Text that does not
hold the character is one part, or the beginning of the first one, and the
character divides what is before it from what is behind it (`splitAll_append`).
So parts that were joined with the character come back (`split_intercalate`), and joined
texts hold the characters of their parts and of what joins them. A run of characters of one
kind ends at the first character of another kind (`takeWhile_append_cons`).
-/

namespace Montage.Text

section Run

variable {p : Char → Bool} {a : List Char} {c : Char} (ha : ∀ d ∈ a, p d = true) (hc : p c = false)
include ha hc

theorem takeWhile_append_cons (b : List Char) : (a ++ c :: b).takeWhile p = a := by
  rw [List.takeWhile_append_of_pos ha, List.takeWhile_cons_of_neg (by simp [hc]), List.append_nil]

theorem dropWhile_append_cons (b : List Char) : (a ++ c :: b).dropWhile p = c :: b := by
  rw [List.dropWhile_append_of_pos ha, List.dropWhile_cons_of_neg (by simp [hc])]

end Run

theorem splitAll_of_not_mem {c : Char} {a : List Char} (h : c ∉ a) : splitAll c a = [a] := by
  induction a with
  | nil => rfl
  | cons d a ih =>
      rw [List.mem_cons, not_or] at h
      rw [splitAll, if_neg (Ne.symm h.1), ih h.2]

theorem splitAll_ne_nil (c : Char) (a : List Char) : splitAll c a ≠ [] := by
  cases a with
  | nil => simp [splitAll]
  | cons d a =>
      rw [splitAll]
      split
      · simp
      · split <;> simp

/-- The character divides what is before it from what is behind it. -/
theorem splitAll_append (c : Char) (a b : List Char) :
    splitAll c (a ++ c :: b) = splitAll c a ++ splitAll c b := by
  induction a with
  | nil => simp [splitAll]
  | cons d a ih =>
      rw [List.cons_append, splitAll, splitAll, ih]
      split
      · rfl
      · obtain ⟨part, parts, hparts⟩ := List.exists_cons_of_ne_nil (splitAll_ne_nil c a)
        simp [hparts]

theorem exists_splitAll_append {c : Char} {a : List Char} (h : c ∉ a) (b : List Char) :
    ∃ part rest, splitAll c (a ++ b) = (a ++ part) :: rest := by
  induction a with
  | nil =>
      obtain ⟨part, rest, hparts⟩ := List.exists_cons_of_ne_nil (splitAll_ne_nil c b)
      exact ⟨part, rest, hparts⟩
  | cons d a ih =>
      rw [List.mem_cons, not_or] at h
      obtain ⟨part, rest, hparts⟩ := ih h.2
      refine ⟨part, rest, ?_⟩
      rw [List.cons_append, splitAll, if_neg (Ne.symm h.1), hparts]
      rfl

theorem not_mem_of_mem_splitAll {c : Char} {a part : List Char} (h : part ∈ splitAll c a) :
    c ∉ part := by
  induction a generalizing part with
  | nil =>
      rw [splitAll, List.mem_singleton] at h
      rw [h]
      exact List.not_mem_nil
  | cons d a ih =>
      rw [splitAll] at h
      split at h
      · rcases List.mem_cons.1 h with rfl | h
        · exact List.not_mem_nil
        · exact ih h
      · rename_i hd
        obtain ⟨first, rest, hparts⟩ := List.exists_cons_of_ne_nil (splitAll_ne_nil c a)
        rw [hparts] at h ih
        rcases List.mem_cons.1 h with rfl | h
        · rw [List.mem_cons, not_or]
          exact ⟨Ne.symm hd, ih List.mem_cons_self⟩
        · exact ih (List.mem_cons_of_mem _ h)

theorem mem_of_mem_splitAll {c d : Char} {a part : List Char} (h : part ∈ splitAll c a)
    (hd : d ∈ part) : d ∈ a := by
  induction a generalizing part with
  | nil =>
      rw [splitAll, List.mem_singleton] at h
      rwa [h] at hd
  | cons e a ih =>
      rw [splitAll] at h
      split at h
      · rcases List.mem_cons.1 h with rfl | h
        · exact absurd hd List.not_mem_nil
        · exact List.mem_cons_of_mem _ (ih h hd)
      · obtain ⟨first, rest, hparts⟩ := List.exists_cons_of_ne_nil (splitAll_ne_nil c a)
        rw [hparts] at h ih
        rcases List.mem_cons.1 h with rfl | h
        · rcases List.mem_cons.1 hd with rfl | hd
          · exact List.mem_cons_self
          · exact List.mem_cons_of_mem _ (ih List.mem_cons_self hd)
        · exact List.mem_cons_of_mem _ (ih (List.mem_cons_of_mem _ h) hd)

theorem exists_mem_splitAll {c d : Char} {a : List Char} (hne : d ≠ c) (hd : d ∈ a) :
    ∃ part ∈ splitAll c a, d ∈ part := by
  induction a with
  | nil => cases hd
  | cons e a ih =>
      rw [splitAll]
      split
      · rename_i he
        have hrest : d ∈ a := (List.mem_cons.1 hd).resolve_left fun heq => hne (heq.trans he)
        obtain ⟨part, hpart, hmem⟩ := ih hrest
        exact ⟨part, List.mem_cons_of_mem _ hpart, hmem⟩
      · obtain ⟨first, rest, hparts⟩ := List.exists_cons_of_ne_nil (splitAll_ne_nil c a)
        rw [hparts] at ih ⊢
        rcases List.mem_cons.1 hd with rfl | hrest
        · exact ⟨_, List.mem_cons_self, List.mem_cons_self⟩
        · obtain ⟨part, hpart, hmem⟩ := ih hrest
          rcases List.mem_cons.1 hpart with rfl | hpart
          · exact ⟨_, List.mem_cons_self, List.mem_cons_of_mem _ hmem⟩
          · exact ⟨part, List.mem_cons_of_mem _ hpart, hmem⟩

theorem splitAll_intercalate {c : Char} {first : List Char} {rest : List (List Char)}
    (h : ∀ s ∈ first :: rest, c ∉ s) :
    splitAll c ([c].intercalate (first :: rest)) = first :: rest := by
  induction rest generalizing first with
  | nil => simpa using splitAll_of_not_mem (h first List.mem_cons_self)
  | cons second rest ih =>
      have hrest := ih fun s hs => h s (List.mem_cons_of_mem _ hs)
      rw [List.intercalate_cons_cons, List.append_assoc, List.singleton_append,
        splitAll_append, splitAll_of_not_mem (h first List.mem_cons_self), hrest,
        List.singleton_append]

/-- Texts without a character can be told apart when that character joins them. -/
theorem split_intercalate {c : Char} {separator : String} (hseparator : separator.toList = [c])
    {texts : List String} (hne : texts ≠ []) (h : ∀ s ∈ texts, c ∉ s.toList) :
    split c (separator.intercalate texts) = texts := by
  obtain ⟨first, rest, rfl⟩ := List.exists_cons_of_ne_nil hne
  have hlists : ∀ s ∈ first.toList :: rest.map String.toList, c ∉ s := by
    intro s hs
    rw [← List.map_cons] at hs
    obtain ⟨t, ht, rfl⟩ := List.mem_map.1 hs
    exact h t ht
  rw [split, String.toList_intercalate, hseparator, List.map_cons, splitAll_intercalate hlists]
  simp [Function.comp_def]

theorem forall_mem_intercalate {P : Char → Prop} {separator : String}
    (hseparator : ∀ c ∈ separator.toList, P c) {l : List String}
    (h : ∀ s ∈ l, ∀ c ∈ s.toList, P c) : ∀ c ∈ (separator.intercalate l).toList, P c := by
  induction l with
  | nil =>
    rw [String.intercalate_nil]
    simp
  | cons s l ih =>
    have hs := h s List.mem_cons_self
    have hl := ih fun t ht => h t (List.mem_cons_of_mem _ ht)
    cases l with
    | nil => rwa [String.intercalate_singleton]
    | cons t l =>
      rw [String.intercalate_cons_cons, String.toList_append, String.toList_append,
        List.forall_mem_append, List.forall_mem_append]
      exact ⟨⟨hs, hseparator⟩, hl⟩

theorem mem_toList_intercalate {separator s : String} {l : List String} (hs : s ∈ l) {c : Char}
    (hc : c ∈ s.toList) : c ∈ (separator.intercalate l).toList := by
  obtain ⟨before, after, rfl⟩ := List.append_of_mem hs
  have hafter : c ∈ (separator.intercalate (s :: after)).toList := by
    cases after with
    | nil => simpa using hc
    | cons t after => simp [String.intercalate_cons_cons, hc]
  cases before with
  | nil => exact hafter
  | cons t before =>
    rw [String.intercalate_append_of_ne_nil (by simp) (by simp), String.toList_append]
    exact List.mem_append_right _ hafter

end Montage.Text
