import Montage.Composite
import Montage.Proofs.Numeral
import Montage.Proofs.Template
import Montage.Proofs.Text.Split
import Montage.Proofs.Words

/-!
# Texts in a command line

A text that is put in a command line is read again, first as words and then as a
template. An inert text gets through as it is. A path gets through the first of the two
if it is quotable (`Path.IsQuotable.ofLine?`): quotes are put around it only where it
holds a blank, and an apostrophe in it is never escaped.

In front of an option, a path without `#` that is not quotable is not even the first
argument that is read (`Path.head?_arguments_ne`). If its quotes are closed, too few
characters are left for it; if they are open, its last word takes in the dash of the
option.
-/

namespace Montage

theorem Text.not_isBlankText_of_mem {s : String} {c : Char} (hc : c ∈ s.toList)
    (hblank : isBlank c = false) : isBlankText s = false := by
  rw [isBlankText, List.all_eq_false]
  exact ⟨c, hc, by rw [hblank]; exact Bool.false_ne_true⟩

theorem Text.ne_empty_of_not_isBlankText {s : String} (h : isBlankText s = false) : s ≠ "" := by
  rintro rfl
  cases h

/-- No character of the text has a meaning in a command line. -/
def IsInert (s : String) : Prop :=
  ∀ c ∈ s.toList, Text.isBlank c = false ∧ c ≠ '\'' ∧ c ≠ '"' ∧ c ≠ '#'

instance (s : String) : Decidable (IsInert s) :=
  List.decidableBAll (fun c => Text.isBlank c = false ∧ c ≠ '\'' ∧ c ≠ '"' ∧ c ≠ '#') s.toList

theorem isInert_append_iff {a b : String} : IsInert (a ++ b) ↔ IsInert a ∧ IsInert b := by
  unfold IsInert
  rw [String.toList_append, List.forall_mem_append]

theorem IsInert.append {a b : String} (ha : IsInert a) (hb : IsInert b) : IsInert (a ++ b) :=
  isInert_append_iff.2 ⟨ha, hb⟩

theorem IsNumeral.isInert {s : String} (h : IsNumeral s) : IsInert s := fun c hc =>
  ⟨isBlank_of_isNumeralChar (h c hc), h.ne hc (by decide), h.ne hc (by decide),
    h.ne hc (by decide)⟩

theorem isInert_toString (n : Nat) : IsInert (toString n) := (isNumeral_toString n).isInert

theorem isInert_join {l : List String} (h : ∀ s ∈ l, IsInert s) : IsInert (String.join l) := by
  intro c hc
  rw [String.toList_join, List.mem_flatMap] at hc
  obtain ⟨s, hs, hc⟩ := hc
  exact h s hs c hc

theorem isInert_intercalate {separator : String} (hseparator : IsInert separator)
    {l : List String} (h : ∀ s ∈ l, IsInert s) : IsInert (separator.intercalate l) :=
  Text.forall_mem_intercalate hseparator h

theorem IsInert.ofLine? {s : String} (h : IsInert s) (hne : s ≠ "") :
    Words.ofLine? s = some [s] :=
  Words.ofLine?_of_bare hne fun c hc => ⟨(h c hc).1, (h c hc).2.1, (h c hc).2.2.1⟩

theorem IsInert.substitute {s : String} (h : IsInert s) (params : Parameters) :
    Template.substitute params s = s :=
  Template.substitute_of_isLiteral
    (Template.isLiteral_of_not_mem fun hmem => (h _ hmem).2.2.2 rfl) params

theorem IsInert.not_isBlankText {s : String} (h : IsInert s) (hne : s ≠ "") :
    Text.isBlankText s = false := by
  obtain ⟨c, hc⟩ := List.exists_mem_of_ne_nil _ (mt String.toList_eq_nil_iff.1 hne)
  exact Text.not_isBlankText_of_mem hc (h c hc).1

/-- A word that is an argument as it stands, and that no input follows. -/
def IsPlainArgument (s : String) : Prop := IsInert s ∧ s ≠ "" ∧ s ≠ "-i"

instance (s : String) : Decidable (IsPlainArgument s) := inferInstanceAs (Decidable (_ ∧ _ ∧ _))

namespace Template

theorem arguments_cons {params : Parameters} {word value : String}
    (h : substitute params word = value) (hblank : Text.isBlankText value = false)
    (words : List String) : arguments params (word :: words) = value :: arguments params words := by
  simp [arguments, h, hblank]

theorem arguments_of_isInert {words : List String} (h : ∀ word ∈ words, IsInert word ∧ word ≠ "")
    (params : Parameters) : arguments params words = words := by
  induction words with
  | nil => rfl
  | cons word words ih =>
    obtain ⟨hword, hne⟩ := h word List.mem_cons_self
    rw [arguments_cons (hword.substitute params) (hword.not_isBlankText hne),
      ih fun w hw => h w (List.mem_cons_of_mem _ hw)]

theorem arguments_of_isPlainArgument {words : List String} (h : ∀ word ∈ words, IsPlainArgument word)
    (params : Parameters) : arguments params words = words :=
  arguments_of_isInert (fun word hword => ⟨(h word hword).1, (h word hword).2.1⟩) params

theorem length_arguments_empty_le (words : List String) :
    ((arguments ∅ words).flatMap String.toList).length ≤ (words.flatMap String.toList).length := by
  induction words with
  | nil => exact Nat.le_refl 0
  | cons word words ih =>
    have hword := length_substitute_empty_le word
    rw [arguments, List.map_cons, List.filter_cons, ← arguments]
    split
    · rw [List.flatMap_cons, List.flatMap_cons, List.length_append, List.length_append]
      omega
    · rw [List.flatMap_cons, List.length_append]
      omega

end Template

namespace Path

/-- A path that is one word as it stands in a command line. -/
def IsQuotable (p : Path) : Prop :=
  '\'' ∉ p.text.toList ∧ ('"' ∈ p.text.toList → p.text.toList.any Text.isBlank = true)

instance (p : Path) : Decidable p.IsQuotable := inferInstanceAs (Decidable (_ ∧ _))

variable {p : Path}

theorem length_kept_quoted_lt (h : ¬ p.IsQuotable) :
    (Words.kept .bare p.quoted.toList).length < p.text.toList.length := by
  unfold quoted
  split
  · rename_i hblank
    have hmark : '\'' ∈ p.text.toList := by
      by_contra hmark
      exact h ⟨hmark, fun _ => hblank⟩
    have hline : ("'" ++ p.text ++ "'").toList = '\'' :: (p.text.toList ++ ['\'']) := by simp
    rw [hline]
    exact Words.length_kept_single_lt hmark
  · rename_i hblank
    apply Words.length_kept_lt rfl
    by_contra hnone
    rw [not_or] at hnone
    exact h ⟨hnone.1, fun hquote => absurd hquote hnone.2⟩

theorem count_kept_quoted {c : Char} (h : c ≠ '\'' ∧ c ≠ '"' ∧ c ≠ '\\')
    (hblank : Text.isBlank c = false) :
    (Words.kept .bare p.quoted.toList).count c = p.text.toList.count c := by
  rw [Words.count_kept h.1 h.2.1 h.2.2 hblank, quoted]
  split <;> simp [h.1.symm]

theorem IsQuotable.ofLine? (h : p.IsQuotable) (hne : p.text ≠ "") :
    Words.ofLine? p.quoted = some [p.text] := by
  unfold quoted
  split
  · exact Words.ofLine?_quoted h.1
  · rename_i hblank
    apply Words.ofLine?_of_bare hne
    intro c hc
    refine ⟨?_, ?_, ?_⟩
    · simpa using fun hc' => hblank (List.any_eq_true.2 ⟨c, hc, hc'⟩)
    · rintro rfl
      exact h.1 hc
    · rintro rfl
      exact hblank (h.2 hc)

theorem not_mem_kept_quoted (hhash : '#' ∉ p.text.toList) :
    '#' ∉ Words.kept .bare p.quoted.toList := by
  rw [← List.count_eq_zero] at hhash ⊢
  rw [count_kept_quoted (by decide) (by decide), hhash]

/-- Words that came out of the quotes of the path say nothing else than blanks, if what
they make is to begin with the path. -/
theorem head?_arguments_of_kept (h : ¬ p.IsQuotable) (hhash : '#' ∉ p.text.toList)
    {params : Parameters} {before more : List String} {front : List Char}
    (hkept : before.flatMap String.toList ++ front = Words.kept .bare p.quoted.toList)
    (hhead : (Template.arguments params (before ++ more)).head? = some p.text) :
    (∀ word ∈ before, Text.isBlankText word = true) ∧
      (Template.arguments params more).head? = some p.text := by
  have hlength := length_kept_quoted_lt h
  have hnot := not_mem_kept_quoted hhash
  rw [← hkept] at hlength hnot
  have hsame : ∀ word ∈ before, Template.substitute params word = word := by
    intro word hword
    apply Template.substitute_of_isLiteral
    apply Template.isLiteral_of_not_mem
    intro hmem
    exact hnot (List.mem_append_left _ (List.mem_flatMap.2 ⟨word, hword, hmem⟩))
  rw [Template.arguments_append, List.head?_append] at hhead
  cases hfirst : (Template.arguments params before).head? with
  | some word =>
    rw [hfirst] at hhead
    obtain rfl : word = p.text := Option.some.inj hhead
    obtain ⟨hmem, _⟩ := List.mem_filter.1 (List.mem_of_head? hfirst)
    obtain ⟨word, hword, hsub⟩ := List.mem_map.1 hmem
    obtain rfl : word = p.text := (hsame word hword).symm.trans hsub
    have hchars : p.text.toList ∈ before.map String.toList := List.mem_map_of_mem hword
    have hle := (List.sublist_flatten_of_mem hchars).length_le
    rw [← List.flatMap_def] at hle
    rw [List.length_append] at hlength
    omega
  | none =>
    rw [hfirst] at hhead
    refine ⟨?_, hhead⟩
    intro word hword
    have hnil : Template.arguments params before = [] := List.head?_eq_none_iff.1 hfirst
    have := List.filter_eq_nil_iff.1 hnil _ (List.mem_map_of_mem hword)
    rw [hsame word hword] at this
    simpa using this

theorem head?_arguments_ne_of_whole (h : ¬ p.IsQuotable) (hhash : '#' ∉ p.text.toList)
    {params : Parameters} {name rest : String} (hname : IsInert name) {before words : List String}
    (hparts : Words.ofLine? p.quoted = some before)
    (hwords : Words.ofLine? (p.quoted ++ " " ++ ("-" ++ name ++ " " ++ rest)) = some words) :
    (Template.arguments params words).head? ≠ some p.text := by
  intro hhead
  have hoption : IsInert ("-" ++ name) := IsInert.append (by decide) hname
  rw [Words.ofLine?_append hparts, Words.ofLine?_append (hoption.ofLine? (by simp))] at hwords
  obtain ⟨_, hmore, rfl⟩ := Option.map_eq_some_iff.1 hwords
  obtain ⟨later, _, rfl⟩ := Option.map_eq_some_iff.1 hmore
  have hkept := Words.flatMap_toList_of_ofLine? hparts
  rw [← List.append_nil (before.flatMap String.toList)] at hkept
  -- the words of the path are too short, so the option would have to be the path
  obtain ⟨_, hfirst⟩ := head?_arguments_of_kept h hhash hkept hhead
  rw [List.singleton_append, Template.arguments_cons (hoption.substitute params)
    (hoption.not_isBlankText (by simp))] at hfirst
  have htext : "-" ++ name = p.text := Option.some.inj hfirst
  apply h
  rw [IsQuotable, ← htext]
  exact ⟨fun hmark => (hoption _ hmark).2.1 rfl,
    fun hquote => absurd rfl (hoption _ hquote).2.2.1⟩

/-- A path whose quote stays open takes the dash of what follows into its last word. -/
theorem head?_arguments_ne_of_open (h : ¬ p.IsQuotable) (hhash : '#' ∉ p.text.toList)
    {params : Parameters} {rest : String} {words : List String}
    (hparts : Words.ofLine? p.quoted = none)
    (hwords : Words.ofLine? (p.quoted ++ " -" ++ rest) = some words) :
    (Template.arguments params words).head? ≠ some p.text := by
  intro hhead
  obtain ⟨before, front, rest, later, rfl, hkept⟩ := Words.exists_open_word hparts hwords
  obtain ⟨hbefore, hfirst⟩ := head?_arguments_of_kept h hhash hkept hhead
  have hdashes : (before.flatMap String.toList).count '-' = 0 := by
    rw [List.count_eq_zero]
    intro hmem
    obtain ⟨word, hword, hdash⟩ := List.mem_flatMap.1 hmem
    have := List.all_eq_true.1 (hbefore word hword) _ hdash
    exact absurd this (by decide)
  have hfront : '#' ∉ (front ++ " -").toList := by
    have := not_mem_kept_quoted hhash
    rw [← hkept] at this
    simp at this ⊢
    exact this.2
  rw [Template.arguments_cons (Template.substitute_append hfront params rest)
    (Text.not_isBlankText_of_mem (c := '-') (by simp) (by decide))] at hfirst
  -- the last word has all dashes of the path, and one more
  have htext := congrArg (fun s => s.toList.count '-') (Option.some.inj hfirst)
  have hcount := count_kept_quoted (p := p) (c := '-') (by decide) (by decide)
  rw [← hkept, List.count_append, hdashes] at hcount
  simp at htext
  omega

/-- In front of an option, a path that is not quotable is not what comes out first. -/
theorem head?_arguments_ne (h : ¬ p.IsQuotable) (hhash : '#' ∉ p.text.toList)
    {params : Parameters} {name rest : String} (hname : IsInert name) {words : List String}
    (hwords : Words.ofLine? (p.quoted ++ " " ++ ("-" ++ name ++ " " ++ rest)) = some words) :
    (Template.arguments params words).head? ≠ some p.text := by
  cases hparts : Words.ofLine? p.quoted with
  | some before => exact head?_arguments_ne_of_whole h hhash hname hparts hwords
  | none =>
    have hline : p.quoted ++ " " ++ ("-" ++ name ++ " " ++ rest) =
        p.quoted ++ " -" ++ (name ++ " " ++ rest) := by
      simp [← String.toList_inj]
    rw [hline] at hwords
    exact head?_arguments_ne_of_open h hhash hparts hwords

end Path

namespace Composite

theorem ofLine?_append_mapText {line : String} {words : List String}
    (hline : Words.ofLine? line = some words) {values : List String}
    (hvalues : ∀ v ∈ values, IsPlainArgument v) :
    Words.ofLine? (line ++ mapText values) =
      some (words ++ values.flatMap fun v => ["-map", v]) := by
  induction values generalizing line words with
  | nil => simpa [mapText] using hline
  | cons v values ih =>
    have hv := hvalues v List.mem_cons_self
    have hmap : IsInert "-map" := by decide
    have hfirst : Words.ofLine? (line ++ " " ++ ("-map" ++ " " ++ v)) =
        some (words ++ ["-map", v]) := by
      rw [Words.ofLine?_append hline, Words.ofLine?_append (hmap.ofLine? (by decide)),
        hv.1.ofLine? hv.2.1]
      rfl
    have hsplit : line ++ mapText (v :: values) =
        line ++ " " ++ ("-map" ++ " " ++ v) ++ mapText values := by
      simp [mapText, ← String.toList_inj]
    rw [hsplit, ih hfirst fun w hw => hvalues w (List.mem_cons_of_mem _ hw), List.flatMap_cons,
      List.append_assoc]

theorem ofLine?_mapText {first : String} (hfirst : IsPlainArgument first)
    {values : List String} (hvalues : ∀ v ∈ values, IsPlainArgument v) {rest : String}
    {words : List String} (hrest : Words.ofLine? rest = some words) :
    Words.ofLine? (first ++ mapText values ++ " " ++ rest) =
      some (first :: values.flatMap (fun v => ["-map", v]) ++ words) := by
  have hwords := ofLine?_append_mapText (hfirst.1.ofLine? hfirst.2.1) hvalues
  rw [Words.ofLine?_append hwords, hrest]
  rfl

end Composite

namespace Command

def inputFiles : List String → List String
  | "-i" :: file :: rest => file :: inputFiles rest
  | _ :: rest => inputFiles rest
  | [] => []

theorem inputFiles_cons_of_ne {a : String} (h : a ≠ "-i") (rest : List String) :
    inputFiles (a :: rest) = inputFiles rest := by
  rw [inputFiles]
  rintro _ _ rfl
  exact absurd rfl h

theorem inputFiles_append_of_not_mem {l : List String} (h : "-i" ∉ l) (rest : List String) :
    inputFiles (l ++ rest) = inputFiles rest := by
  induction l with
  | nil => rfl
  | cons a l ih =>
    rw [List.mem_cons, not_or] at h
    rw [List.cons_append, inputFiles_cons_of_ne (Ne.symm h.1), ih h.2]

theorem inputFiles_of_length_le_one {l : List String} (h : l.length ≤ 1) : inputFiles l = [] := by
  match l, h with
  | [], _ => rfl
  | [a], _ => simp [inputFiles]

end Command

end Montage
