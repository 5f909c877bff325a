import Mathlib.Data.List.Basic
import Montage.Text.Blank
import Montage.Text.Search

/-!
# Lines, and texts without blanks around them

Lines that are written with a line feed behind each of them are read back, but for a
carriage return at their end (`lines_join`).
-/

namespace Montage.Text

theorem trimEnd_eq_self {cs : List Char} (h : ∀ c ∈ cs.getLast?, isBlank c = false) :
    trimEnd cs = cs := by
  induction cs with
  | nil => rfl
  | cons c cs ih =>
    cases cs with
    | nil =>
      have hc : isBlank c = false := h c rfl
      simp [trimEnd, hc]
    | cons d cs =>
      rw [trimEnd, ih fun e he => h e (by simpa [List.getLast?_cons] using he)]

theorem trimEnd_initial (cs : List Char) : trimEnd cs <+: cs := by
  induction cs with
  | nil => exact List.prefix_rfl
  | cons c cs ih =>
    rw [trimEnd]
    split
    · split
      · exact List.nil_prefix
      · exact List.cons_prefix_cons.2 ⟨rfl, List.nil_prefix⟩
    · rename_i heq
      rw [heq] at ih
      exact List.cons_prefix_cons.2 ⟨rfl, ih⟩

theorem trimEnd_append_cons {c : Char} (hc : isBlank c = false) (a b : List Char) :
    trimEnd (a ++ c :: b) = a ++ c :: trimEnd b := by
  induction a with
  | nil => exact trimEnd_cons_of_not_isBlank hc b
  | cons d a ih =>
    rw [List.cons_append, trimEnd, ih]
    cases a <;> rfl

theorem trimEnd_append {tail : List Char} (h : ∀ c ∈ tail, isBlank c = true) (cs : List Char) :
    trimEnd (cs ++ tail) = trimEnd cs := by
  induction cs with
  | nil => rw [List.nil_append, trimEnd_nil, trimEnd_eq_nil_iff.2 h]
  | cons c cs ih => rw [List.cons_append, trimEnd, trimEnd, ih]

theorem trimStart_append (indent cs : List Char) (hindent : ∀ c ∈ indent, isBlank c = true)
    (hhead : ∀ c ∈ cs.head?, isBlank c = false) : trimStart (indent ++ cs) = cs := by
  rw [trimStart, List.dropWhile_append_of_pos hindent]
  cases cs with
  | nil => rfl
  | cons c cs => rw [List.dropWhile_cons, hhead c rfl, if_neg Bool.false_ne_true]

theorem trimStart_append_eq_ite (a b : List Char) :
    trimStart (a ++ b) = if trimStart a = [] then trimStart b else trimStart a ++ b := by
  rw [trimStart, List.dropWhile_append]
  cases hstart : a.dropWhile isBlank <;> simp [trimStart, hstart]

theorem trimStart_eq_nil {blanks : List Char} (h : ∀ c ∈ blanks, isBlank c = true) :
    trimStart blanks = [] := by
  have hstart := trimStart_append blanks [] h (by simp)
  rwa [List.append_nil] at hstart

theorem trim_append_blanks {blanks : List Char} (h : ∀ c ∈ blanks, isBlank c = true)
    (cs : List Char) : trim (cs ++ blanks) = trim cs := by
  rw [trim, trim, trimStart_append_eq_ite]
  split_ifs with hempty
  · rw [hempty, trimStart_eq_nil h]
  · exact trimEnd_append h _

theorem mem_trim {c : Char} {cs : List Char} (hc : isBlank c = false) (h : c ∈ cs) :
    c ∈ trim cs := by
  obtain ⟨before, after, rfl⟩ := List.append_of_mem h
  rw [trim, trimStart_append_eq_ite]
  split_ifs
  · rw [trimStart, List.dropWhile_cons_of_neg (by simp [hc]), trimEnd_cons_of_not_isBlank hc]
    exact List.mem_cons_self
  · rw [trimEnd_append_cons hc]
    simp

/-- Blanks around a text that has none at its ends are all that goes. -/
theorem trim_append (indent tail : List Char) {cs : List Char}
    (hindent : ∀ c ∈ indent, isBlank c = true) (htail : ∀ c ∈ tail, isBlank c = true)
    (hhead : ∀ c ∈ cs.head?, isBlank c = false) (hlast : ∀ c ∈ cs.getLast?, isBlank c = false) :
    trim (indent ++ (cs ++ tail)) = cs := by
  cases cs with
  | nil =>
    have hstart := trimStart_append (indent ++ tail) []
      (fun c hc => (List.mem_append.1 hc).elim (hindent c) (htail c)) (by simp)
    rw [List.append_nil] at hstart
    rw [List.nil_append, trim, hstart, trimEnd_nil]
  | cons c cs =>
    rw [trim, trimStart_append indent (c :: cs ++ tail) hindent hhead, trimEnd_append htail,
      trimEnd_eq_self hlast]

theorem trim_eq_self {cs : List Char} (hhead : ∀ c ∈ cs.head?, isBlank c = false)
    (hlast : ∀ c ∈ cs.getLast?, isBlank c = false) : trim cs = cs := by
  have htrim := trim_append [] [] (by simp) (by simp) hhead hlast
  rwa [List.append_nil] at htrim

theorem mem_of_mem_trim {cs : List Char} {c : Char} (h : c ∈ trim cs) : c ∈ cs :=
  (List.dropWhile_sublist _).subset ((trimEnd_initial _).subset h)

theorem head?_trim {cs : List Char} : ∀ c ∈ (trim cs).head?, isBlank c = false := by
  intro c hc
  have hstart : (trimStart cs).head? = some c := by
    obtain ⟨rest, hrest⟩ := trimEnd_initial (trimStart cs)
    rw [← hrest, List.head?_append]
    exact congrArg (Option.or · _) hc
  have hblank := List.head?_dropWhile_not isBlank cs
  rw [trimStart] at hstart
  rw [hstart] at hblank
  simpa using hblank

theorem head?_trim_of_not_isBlank {c : Char} {cs : List Char} (h : isBlank c = false) :
    (trim (c :: cs)).head? = some c := by
  simp [trim, trimStart, h, trimEnd_cons_of_not_isBlank]

def dropReturn (cs : List Char) : List Char :=
  if cs.getLast? = some '\r' then cs.dropLast else cs

theorem dropReturn_of_getLast? {cs : List Char} (h : cs.getLast? ≠ some '\r') :
    dropReturn cs = cs := if_neg h

theorem dropReturn_append_cons {c : Char} (h : c ≠ '\r') (a b : List Char) :
    dropReturn (a ++ c :: b) = a ++ c :: dropReturn b := by
  cases b with
  | nil => rw [dropReturn_of_getLast? (by simpa using h)]; rfl
  | cons d b =>
    have hlast : (a ++ c :: d :: b).getLast? = (d :: b).getLast? := by
      rw [List.getLast?_append_of_ne_nil _ (List.cons_ne_nil _ _), List.getLast?_cons_cons]
    have hdrop : (a ++ c :: d :: b).dropLast = a ++ c :: (d :: b).dropLast := by
      rw [List.dropLast_append_of_ne_nil (List.cons_ne_nil _ _)]
      rfl
    unfold dropReturn
    rw [hlast, hdrop]
    split_ifs <;> rfl

theorem linesOf_append {cs : List Char} (h : '\n' ∉ cs) (rest : List Char) :
    linesOf (cs ++ '\n' :: rest) = dropReturn cs :: linesOf rest := by
  induction cs with
  | nil => rfl
  | cons c cs ih =>
    rw [List.mem_cons, not_or] at h
    cases cs with
    | nil =>
      by_cases hc : c = '\r'
      · subst hc
        rfl
      · rw [List.singleton_append, linesOf]
        · simp [linesOf, dropReturn, hc]
        · exact Ne.symm h.1
        · simp [hc]
    | cons d cs =>
      have hd : d ≠ '\n' := fun heq => h.2 (heq ▸ List.mem_cons_self)
      have hdrop : dropReturn (c :: d :: cs) = c :: dropReturn (d :: cs) := by
        unfold dropReturn
        rw [List.getLast?_cons_cons]
        split_ifs <;> rfl
      rw [List.cons_append, linesOf, ih h.2, hdrop]
      · exact Ne.symm h.1
      · rintro rest - heq
        exact hd (List.cons.inj heq).1

theorem not_mem_of_mem_linesOf {cs line : List Char} (h : line ∈ linesOf cs) : '\n' ∉ line := by
  fun_induction linesOf cs generalizing line with
  | case1 => simp at h
  | case2 cs ih | case3 cs ih =>
    rcases List.mem_cons.1 h with rfl | h
    · exact List.not_mem_nil
    · exact ih h
  | case4 c cs hfeed _ _ ih =>
    rw [List.mem_singleton.1 h, List.mem_singleton]
    exact Ne.symm hfeed
  | case5 c cs hfeed _ first rest hlines ih =>
    rw [hlines] at ih
    rcases List.mem_cons.1 h with rfl | h
    · rw [List.mem_cons, not_or]
      exact ⟨Ne.symm hfeed, ih List.mem_cons_self⟩
    · exact ih (List.mem_cons_of_mem _ h)

/-- Lines that are written with a line feed behind each are read back. -/
theorem linesOf_join {lines : List String} (h : ∀ line ∈ lines, '\n' ∉ line.toList) :
    linesOf (String.join (lines.map (· ++ "\n"))).toList =
      lines.map fun line => dropReturn line.toList := by
  induction lines with
  | nil => rfl
  | cons line lines ih =>
    have htext : (String.join ((line :: lines).map (· ++ "\n"))).toList =
        line.toList ++ '\n' :: (String.join (lines.map (· ++ "\n"))).toList := by
      simp [String.toList_join]
    rw [htext, linesOf_append (h line List.mem_cons_self),
      ih fun l hl => h l (List.mem_cons_of_mem _ hl), List.map_cons]

theorem lines_join {lines : List String} (h : ∀ line ∈ lines, '\n' ∉ line.toList) :
    Text.lines (String.join (lines.map (· ++ "\n"))) =
      lines.map fun line => String.ofList (dropReturn line.toList) := by
  rw [Text.lines, linesOf_join h, List.map_map]
  rfl

theorem count_le_length_linesOf (cs : List Char) : cs.count '\n' ≤ (linesOf cs).length := by
  fun_induction linesOf cs with
  | case1 => exact Nat.le_refl 0
  | case2 cs ih => simpa using ih
  | case3 cs ih => simpa using ih
  | case4 c cs hfeed _ hlines ih =>
    rw [hlines] at ih
    have hc : c ≠ '\n' := fun heq => hfeed heq
    rw [List.count_cons_of_ne hc]
    exact Nat.le_succ_of_le ih
  | case5 c cs hfeed _ line lines hlines ih =>
    rw [hlines] at ih
    have hc : c ≠ '\n' := fun heq => hfeed heq
    rw [List.count_cons_of_ne hc]
    exact ih

end Montage.Text
