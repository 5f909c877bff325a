import Montage.Command
import Montage.Concat
import Montage.Proofs.CommandText
import Montage.Proofs.Text.Replacement
import Montage.Proofs.Words.Grammar

/-!
# Texts that are read back as their words

Two texts are written so that their words can be read again. A shown command has single
quotes around a token that is empty or holds a blank, and leaves every other token as it is.
It is read back exactly if no token has an apostrophe, and double quotes stand only in tokens
with blanks (`tokenize_display_iff`). Backslashes do no harm, since no quote follows them
outside of quotes. A list of files escapes the apostrophes of its paths, and is read back
whatever the paths are (`tokenize_fileList`).

That an apostrophe always does harm needs an argument, because the text behind it could make
up for it. It closes the quotes, so it would have to come out of the rest of its token. But
there the reading never catches up: what is read of a text and a blank behind it never begins
with an apostrophe and that text (`not_prefix_of_scan`).
-/

namespace Montage

namespace Words

/-- The text is empty or begins with a space, as it does behind a shown token. -/
def IsSpaced (b : List Char) : Prop := b = [] ∨ ∃ more, b = ' ' :: more

namespace Puts

variable {text : List Char} {f : Scan → Scan}

/-- The first word ends within the text, or has all of it in front of what goes on. -/
theorem word_cases (h : Puts text f) : (∀ s, (f s).word = (f .done).word) ∨
    ∀ s, (f s).word.getD [] = text ++ s.word.getD [] := by
  induction h with
  | nothing => exact Or.inr fun s => rfl
  | extend c h ih =>
    refine ih.imp ?_ ?_
    · exact fun hsame s => congrArg (fun word : Option _ => some (c :: word.getD [])) (hsame s)
    · exact fun hword s => congrArg (c :: ·) (hword s)
  | opened h ih =>
    refine ih.imp ?_ ?_
    · exact fun hsame s => congrArg (fun word : Option _ => some (word.getD [])) (hsame s)
    · exact fun hword s => hword s
  | ended h ih => exact Or.inl fun s => rfl

theorem length_word_done (h : Puts text f) : ((f .done).word.getD []).length ≤ text.length := by
  have hflat := congrArg List.length (h.flatten_words .done)
  rw [show Scan.done.words.flatten = [] from rfl, List.append_nil] at hflat
  rw [← hflat, Scan.words]
  cases (f .done).word with
  | none => exact Nat.zero_le _
  | some word => simp

/-- In front of a blank the first word is no longer than what is kept of the text, or it goes
on with the blank. -/
theorem length_word_or (h : Puts text f) {last : Quoting} {b : List Char} {s : Scan}
    (hb : IsSpaced b) (hs : scan last b = some s) :
    ((f s).word.getD []).length ≤ text.length ∨
      ∃ rest, (f s).word.getD [] = text ++ ' ' :: rest := by
  rcases h.word_cases with hsame | hword
  · rw [hsame]
    exact Or.inl h.length_word_done
  · rw [hword]
    obtain rfl | ⟨more, rfl⟩ := hb
    · cases last <;> cases hs
      exact Or.inl (by simp [Scan.done])
    · cases last with
      | bare =>
        obtain ⟨s', _, rfl⟩ := Option.map_eq_some_iff.1 hs
        exact Or.inl (by simp [Scan.ended, show Text.isBlank ' ' = true by decide])
      | single | double =>
        obtain ⟨s', _, rfl⟩ := Option.map_eq_some_iff.1 hs
        exact Or.inr ⟨s'.word.getD [], rfl⟩

end Puts

theorem kept_or_blank_of_scan {a b : List Char} {s : Scan} (hb : IsSpaced b)
    (hs : scan .bare (a ++ b) = some s) : (s.word.getD []).length ≤ (kept .bare a).length ∨
      ∃ rest, s.word.getD [] = kept .bare a ++ ' ' :: rest := by
  obtain ⟨f, last, hf, hread⟩ := reads_kept .bare a
  rw [hread b (by obtain rfl | ⟨more, rfl⟩ := hb <;> simp)
    (by obtain rfl | ⟨more, rfl⟩ := hb <;> simp)] at hs
  obtain ⟨s', hs', rfl⟩ := Option.map_eq_some_iff.1 hs
  exact hf.length_word_or hb hs'

/-- The reading of a text in front of a blank does not begin with an apostrophe and then the
text itself. -/
theorem not_prefix_of_scan {a v b : List Char} {s : Scan} (hv : v <+: a)
    (hkept : (kept .bare a).length ≤ v.length) (hb : IsSpaced b)
    (hs : scan .bare (a ++ b) = some s) : ¬ '\'' :: v <+: s.word.getD [] := by
  induction hlength : v.length using Nat.strong_induction_on generalizing a v b with
  | _ n ih =>
    intro hprefix
    rcases kept_or_blank_of_scan hb hs with hshort | ⟨rest, hword⟩
    · have hlt := hprefix.length_le
      rw [List.length_cons] at hlt
      omega
    · -- what is kept of the text ends at a blank in the text, and is read from what is in front
      have hblank : kept .bare a ++ [' '] <+: '\'' :: v := by
        have hfront : kept .bare a ++ [' '] <+: s.word.getD [] := ⟨rest, by simp [hword]⟩
        apply List.prefix_of_prefix_length_le hfront hprefix
        simp only [List.length_append, List.length_cons, List.length_nil]
        omega
      cases hfirst : kept .bare a with
      | nil =>
        rw [hfirst] at hblank
        exact absurd (List.cons_prefix_cons.1 hblank).1 (by decide)
      | cons c k =>
        rw [hfirst, List.cons_append] at hblank
        obtain ⟨rfl, hk⟩ := List.cons_prefix_cons.1 hblank
        obtain ⟨behind, rfl⟩ := hk.trans hv
        have hlt := hk.length_le
        rw [List.length_append, List.length_singleton] at hlt
        refine ih k.length (by omega) (a := k) (v := k) (b := ' ' :: (behind ++ b)) List.prefix_rfl
          (length_kept_le .bare k) (Or.inr ⟨_, rfl⟩) ?_ rfl ?_
        · simpa using hs
        · exact ⟨' ' :: rest, by rw [hword, hfirst]⟩

theorem isSome_word_of_scan {c : Char} {cs : List Char} {s : Scan}
    (hblank : Text.isBlank c = false) (hs : scan .bare (c :: cs) = some s) : s.word.isSome := by
  generalize hquoting : Quoting.bare = quoting at hs
  generalize htext : c :: cs = text at hs
  fun_cases scan quoting text with
  | case1 => cases htext
  | case9 | case10 | case11 | case12 =>
    obtain ⟨_, _, rfl⟩ := Option.map_eq_some_iff.1 hs
    rfl
  | case13 d ds hescape hescape' hmark hquote =>
    obtain ⟨rfl, rfl⟩ := List.cons.inj htext
    rw [scan_bare_cons hmark hquote hescape hescape', hblank, if_neg Bool.false_ne_true] at hs
    obtain ⟨_, _, rfl⟩ := Option.map_eq_some_iff.1 hs
    rfl
  | _ => cases hquoting

end Words

namespace Command

/-- The token can be told from the way in which it is shown. -/
def IsShowable (token : String) : Prop :=
  '\'' ∉ token.toList ∧ ('"' ∈ token.toList → token.toList.any Text.isBlank = true)

instance (token : String) : Decidable (IsShowable token) := inferInstanceAs (Decidable (_ ∧ _))

variable {token : String}

theorem shown_eq_quoted (h : token ≠ "") : shown token = (Path.mk token).quoted := by
  simp [shown, Path.quoted, h]

theorem IsShowable.ofLine? (h : IsShowable token) : Words.ofLine? (shown token) = some [token] := by
  by_cases hne : token = ""
  · subst hne
    decide
  · rw [shown_eq_quoted hne]
    exact Path.IsQuotable.ofLine? h hne

section

variable {rest : List Char} {s : Words.Scan}

/-- In quotes, the first apostrophe of a token closes the quotes, and what is behind it is not
read as the rest of the token. -/
theorem head?_ne_of_apostrophe (hblank : token.toList.any Text.isBlank = true)
    (hmark : '\'' ∈ token.toList) (hrest : Words.IsSpaced rest)
    (hs : Words.scan .bare ((shown token).toList ++ rest) = some s) :
    s.words.head? ≠ some token.toList := by
  intro hhead
  obtain ⟨before, behind, htoken, hbefore⟩ := List.eq_append_cons_of_mem hmark
  have hshown : shown token = "'" ++ token ++ "'" := by
    rw [shown, hblank, Bool.or_true, if_pos rfl]
  have hline : (shown token).toList ++ rest =
      '\'' :: (before ++ '\'' :: (behind ++ ['\''] ++ rest)) := by
    simp [hshown, htoken]
  rw [hline, Words.scan, Words.scan_single_text hbefore] at hs
  obtain ⟨s', hs', rfl⟩ := Option.map_eq_some_iff.1 hs
  have hword : s'.word.getD [] = '\'' :: behind := by
    have hfirst : before ++ s'.word.getD [] = token.toList := Option.some.inj hhead
    rw [htoken] at hfirst
    exact List.append_cancel_left hfirst
  have hkept : (Words.kept .bare (behind ++ ['\''])).length ≤ behind.length := by
    have hlt : (Words.kept .bare (behind ++ ['\''])).length < (behind ++ ['\'']).length :=
      Words.length_kept_lt rfl (Or.inl (by simp))
    rw [List.length_append, List.length_singleton] at hlt
    omega
  apply Words.not_prefix_of_scan (List.prefix_append behind _) hkept hrest hs'
  rw [hword]

/-- A token that is shown as it is loses its quotes, and gets nothing for them but what is
behind a blank. -/
theorem head?_ne_of_quote (hbare : ∀ c ∈ token.toList, Text.isBlank c = false)
    (hquote : '\'' ∈ token.toList ∨ '"' ∈ token.toList)
    (hrest : Words.IsSpaced rest)
    (hs : Words.scan .bare ((shown token).toList ++ rest) = some s) :
    s.words.head? ≠ some token.toList := by
  intro hhead
  obtain ⟨c, cs, hcs⟩ : ∃ c cs, token.toList = c :: cs :=
    List.exists_cons_of_ne_nil (by rintro hnil; simp [hnil] at hquote)
  have hshown : shown token = token := by
    have hne : token ≠ "" := by
      rintro rfl
      cases hcs
    rw [shown_eq_quoted hne, Path.quoted, if_neg (by simpa using hbare)]
  rw [hshown] at hs
  have hsome : s.word.isSome := by
    rw [hcs] at hs
    exact Words.isSome_word_of_scan (hbare c (by simp [hcs])) hs
  obtain ⟨word, hword⟩ := Option.isSome_iff_exists.1 hsome
  have hfirst : s.word.getD [] = token.toList := by
    rw [Words.Scan.words, hword] at hhead
    rw [hword]
    exact Option.some.inj hhead
  have hlt : (Words.kept .bare token.toList).length < token.toList.length :=
    Words.length_kept_lt rfl hquote
  rcases Words.kept_or_blank_of_scan hrest hs with hshort | ⟨more, hword⟩
  · rw [hfirst] at hshort
    omega
  · have hmem : ' ' ∈ token.toList := by
      rw [← hfirst, hword]
      simp
    exact absurd (hbare _ hmem) (by decide)

/-- A token that is not showable is not the first word, whatever is behind it. -/
theorem head?_ne_of_not_isShowable (h : ¬ IsShowable token)
    (hrest : Words.IsSpaced rest)
    (hs : Words.scan .bare ((shown token).toList ++ rest) = some s) :
    s.words.head? ≠ some token.toList := by
  unfold IsShowable at h
  by_cases hblank : token.toList.any Text.isBlank = true
  · have hmark : '\'' ∈ token.toList := by
      by_contra hmark
      exact h ⟨hmark, fun _ => hblank⟩
    exact head?_ne_of_apostrophe hblank hmark hrest hs
  · have hquote : '\'' ∈ token.toList ∨ '"' ∈ token.toList := by
      by_contra hnone
      rw [not_or] at hnone
      exact h ⟨hnone.1, fun hquote => absurd hquote hnone.2⟩
    exact head?_ne_of_quote (by simpa using hblank) hquote hrest hs

end

theorem exists_toList_display (token : String) (tokens : List String) :
    ∃ rest, Words.IsSpaced rest ∧
      (" ".intercalate ((token :: tokens).map shown)).toList = (shown token).toList ++ rest := by
  cases tokens with
  | nil => exact ⟨[], Or.inl rfl, by simp⟩
  | cons next tokens =>
    refine ⟨' ' :: (" ".intercalate ((next :: tokens).map shown)).toList, Or.inr ⟨_, rfl⟩, ?_⟩
    rw [List.map_cons, List.map_cons, String.intercalate_cons_cons]
    simp

theorem ofLine?_display_iff (tokens : List String) :
    Words.ofLine? (" ".intercalate (tokens.map shown)) = some tokens ↔
      ∀ token ∈ tokens, IsShowable token := by
  induction tokens with
  | nil => decide
  | cons token tokens ih =>
    rw [List.forall_mem_cons]
    by_cases h : IsShowable token
    · rw [and_iff_right h, ← ih]
      cases tokens with
      | nil =>
        have hempty : Words.ofLine? (" ".intercalate ([].map shown)) = some [] := by decide
        rw [List.map_singleton, String.intercalate_singleton, h.ofLine?]
        exact iff_of_true rfl hempty
      | cons next tokens =>
        rw [List.map_cons, List.map_cons, String.intercalate_cons_cons,
          Words.ofLine?_append h.ofLine?, ← List.map_cons, Option.map_eq_some_iff]
        simp
    · refine iff_of_false ?_ fun hall => h hall.1
      intro hread
      obtain ⟨rest, hrest, hline⟩ := exists_toList_display token tokens
      obtain ⟨s, hs, hwords⟩ := Option.map_eq_some_iff.1 hread
      rw [hline] at hs
      apply head?_ne_of_not_isShowable h hrest hs
      obtain ⟨word, words, hcons, rfl, _⟩ := List.map_eq_cons_iff.1 hwords
      rw [hcons, String.toList_ofList]
      rfl

/-- The command is read back exactly if its program and its arguments are all showable. -/
theorem tokenize_display_iff (c : Command) :
    Words.tokenize c.display = .ok (c.program :: c.arguments) ↔
      ∀ token ∈ c.program :: c.arguments, IsShowable token := by
  rw [Words.tokenize_eq_ok_iff]
  exact ofLine?_display_iff (c.program :: c.arguments)

/-- Blanks, an empty argument, and backslashes in front of a blank, a quote and the end. -/
theorem tokenize_display_backslashes :
    let c : Command :=
      { program := "my encoder", arguments := ["-i", "C:\\in \\", "", "two\n lines", "\\"] }
    c.display = "'my encoder' -i 'C:\\in \\' '' 'two\n lines' \\" ∧
      Words.tokenize c.display =
        .ok ["my encoder", "-i", "C:\\in \\", "", "two\n lines", "\\"] := by
  intro c
  have hshowable : ∀ token ∈ c.program :: c.arguments, IsShowable token := by decide
  exact ⟨by decide, (tokenize_display_iff c).2 hshowable⟩

end Command

namespace Concat

/-- An apostrophe that closes the quotes, stands escaped and opens them again is read as an
apostrophe. -/
theorem scan_single_replaced (cs rest : List Char) :
    (Words.scan .single (Text.replaceFrom '\'' [] ['\'', '\\', '\'', '\''] 0 cs ++
        '\'' :: rest)).map Words.Scan.opened =
      (Words.scan .bare rest).map (Words.Scan.begun cs) := by
  induction cs with
  | nil => rfl
  | cons c cs ih =>
    rw [Words.map_begun_cons, ← ih]
    by_cases hc : c = '\''
    · subst hc
      rw [Text.replaceFrom, if_pos (by simp)]
      simp only [List.cons_append, List.nil_append, Words.scan, List.length_nil, Option.map_map]
      rfl
    · have hstart : ¬ ['\''] <+: c :: cs := fun hp => hc (List.cons_prefix_cons.1 hp).1.symm
      rw [Text.replaceFrom_cons hstart, List.cons_append, Words.scan, Words.map_opened_extend]
      exact hc

theorem ofLine?_listEntry_append (input : ConcatInput) (a : String) :
    Words.ofLine? (listEntry input ++ a) =
      (Words.ofLine? a).map (["file", input.path.text] ++ ·) := by
  have hfile : IsInert "file" := by decide
  have hline : listEntry input ++ a = "file" ++ " " ++
      ("'" ++ Text.replaced "'" "'\\''" input.path.text ++ "'\n" ++ a) := by
    simp [listEntry, ← String.toList_inj]
  have hpath : ("'" ++ Text.replaced "'" "'\\''" input.path.text ++ "'\n" ++ a).toList =
      '\'' :: (Text.replaceFrom '\'' [] ['\'', '\\', '\'', '\''] 0 input.path.text.toList ++
        '\'' :: '\n' :: a.toList) := by
    simp [Text.replaced, Text.replaceAll]
  rw [hline, Words.ofLine?_append (hfile.ofLine? (by decide)), Words.ofLine?, hpath, Words.scan,
    scan_single_replaced, Words.scan_bare_blank (by decide), Words.ofLine?]
  simp only [Option.map_map]
  congr 1
  funext s
  simp [Words.Scan.begun, Words.Scan.ended, Words.Scan.words]

/-- The list is read back as the word `file` and the path, for one input after the other. -/
theorem tokenize_fileList (inputs : List ConcatInput) :
    Words.tokenize (fileList inputs) =
      .ok (inputs.flatMap fun input => ["file", input.path.text]) := by
  rw [Words.tokenize_eq_ok_iff, fileList]
  induction inputs with
  | nil => decide
  | cons input inputs ih =>
    rw [List.map_cons, String.join_cons, ofLine?_listEntry_append, ih]
    rfl

end Concat

end Montage
