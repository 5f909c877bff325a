import Mathlib.Data.List.Basic
import Montage.Words

/-!
# Reading a command line part by part

Reading a part of a command line puts the characters that are kept in front of what
stands behind it, and begins and ends words on the way. `Puts` is what a part can do,
and `reads_kept` says that every part does it, whatever stands behind the blank after
it. `kept` lists the characters: only quotes, escapes and blanks can get lost.

If the quotes of a part are closed, it is read on its own (`ofLine?_append`). Otherwise
its last word goes on behind the blank (`exists_open_word`).
-/

namespace Montage.Words

namespace Scan

/-- What `s` holds, and behind a blank what `t` holds. -/
def followed (s t : Scan) : Scan := ⟨s.word, s.later ++ t.words⟩

/-- The text in front; a word begins with it, if none goes on. -/
def begun (text : List Char) (s : Scan) : Scan := ⟨some (text ++ s.word.getD []), s.later⟩

variable (s t : Scan)

theorem words_followed : (s.followed t).words = s.words ++ t.words := by
  simp [followed, words]

theorem followed_ended : s.ended.followed t = (s.followed t).ended := by
  simp [followed, ended, words]

theorem begun_begun (a b : List Char) : (s.begun b).begun a = s.begun (a ++ b) := by
  simp [begun]

end Scan

/-- The characters of a text that its words hold, in their order. -/
def kept : Quoting → List Char → List Char
  | _, [] => []
  | .single, '\'' :: cs => kept .bare cs
  | .single, c :: cs => c :: kept .single cs
  | .double, '\\' :: '"' :: cs => '"' :: kept .double cs
  | .double, '"' :: cs => kept .bare cs
  | .double, c :: cs => c :: kept .double cs
  | .bare, '\\' :: '\'' :: cs => '\'' :: kept .bare cs
  | .bare, '\\' :: '"' :: cs => '"' :: kept .bare cs
  | .bare, '\'' :: cs => kept .single cs
  | .bare, '"' :: cs => kept .double cs
  | .bare, c :: cs => if Text.isBlank c then kept .bare cs else c :: kept .bare cs

theorem kept_single_of_ne {c : Char} (h : c ≠ '\'') (cs : List Char) :
    kept .single (c :: cs) = c :: kept .single cs := by
  rw [kept.eq_def]
  split <;> simp_all

theorem length_kept_le (quoting : Quoting) (a : List Char) :
    (kept quoting a).length ≤ a.length := by
  fun_induction kept quoting a <;> simp <;> omega

theorem length_kept_lt {quoting : Quoting} {a : List Char} (hbare : quoting = .bare)
    (h : '\'' ∈ a ∨ '"' ∈ a) : (kept quoting a).length < a.length := by
  -- the cases are the lines of `kept`; outside of quotes these are the last six
  fun_induction kept quoting a with
  | case1 => simp at h
  | case7 cs | case8 cs =>
    have hle := length_kept_le .bare cs
    simp only [List.length_cons]
    omega
  | case9 cs | case10 cs => exact Nat.lt_succ_of_le (length_kept_le _ cs)
  | case11 c cs => exact Nat.lt_succ_of_le (length_kept_le .bare cs)
  | case12 c cs _ _ hmark hquote _ ih =>
    have hcs : '\'' ∈ cs ∨ '"' ∈ cs := by
      simpa [Ne.symm hmark, Ne.symm hquote] using h
    exact Nat.succ_lt_succ (ih rfl hcs)
  | _ => cases hbare

/-- An apostrophe in a quoted text gets lost together with one of the quotes around it. -/
theorem length_kept_single_lt {cs : List Char} (h : '\'' ∈ cs) :
    (kept .single (cs ++ ['\''])).length < cs.length := by
  induction cs with
  | nil => simp at h
  | cons c cs ih =>
    by_cases hc : c = '\''
    · subst hc
      have hlt : (kept .bare (cs ++ ['\''])).length < (cs ++ ['\'']).length :=
        length_kept_lt rfl (Or.inl (by simp))
      rw [List.length_append] at hlt
      exact hlt
    · rw [List.cons_append, kept_single_of_ne hc]
      exact Nat.succ_lt_succ (ih (by simpa [Ne.symm hc] using h))

theorem count_kept {c : Char} (hmark : c ≠ '\'') (hquote : c ≠ '"') (hslash : c ≠ '\\')
    (hblank : Text.isBlank c = false) (quoting : Quoting) (a : List Char) :
    (kept quoting a).count c = a.count c := by
  fun_induction kept quoting a with
  | case1 => rfl
  | case11 d cs _ _ _ _ hd ih =>
    have hne : d ≠ c := by
      rintro rfl
      rw [hblank] at hd
      cases hd
    rw [List.count_cons_of_ne hne, ih]
  | _ => simp_all [List.count_cons, Ne.symm]

/-- What a text can do to what is read behind it, where `text` are the characters that
it keeps. -/
inductive Puts : (text : List Char) → (Scan → Scan) → Prop
  | nothing : Puts [] fun s => s
  | extend {text f} (c : Char) (h : Puts text f) : Puts (c :: text) fun s => (f s).extend c
  | opened {text f} (h : Puts text f) : Puts text fun s => (f s).opened
  | ended {text f} (h : Puts text f) : Puts text fun s => (f s).ended

namespace Puts

variable {text : List Char} {f : Scan → Scan}

theorem flatten_words (h : Puts text f) (s : Scan) :
    (f s).words.flatten = text ++ s.words.flatten := by
  induction h with
  | nothing => rfl
  | @extend text f c h ih =>
    rw [List.cons_append, ← ih]
    cases hword : (f s).word <;> simp [Scan.extend, Scan.words, hword]
  | @opened text f h ih =>
    rw [← ih]
    cases hword : (f s).word <;> simp [Scan.opened, Scan.words, hword]
  | ended h ih => exact ih

theorem apply_ended (h : Puts text f) (s : Scan) : f s.ended = (f .done).followed s := by
  induction h with
  | nothing => rfl
  | extend c h ih => exact congrArg (Scan.extend c) ih
  | opened h ih => exact congrArg Scan.opened ih
  | ended h ih => exact (congrArg Scan.ended ih).trans (Scan.followed_ended _ s).symm

theorem exists_words (h : Puts text f) {s : Scan} {word : List Char} (hword : s.word = some word) :
    ∃ before front, (f s).words = before ++ (front ++ word) :: s.later ∧
      before.flatten ++ front = text := by
  induction h with
  | nothing => exact ⟨[], [], by simp [Scan.words, hword], rfl⟩
  | @extend text f c h ih =>
    obtain ⟨before, front, hwords, htext⟩ := ih
    cases hfirst : (f s).word with
    | none =>
      refine ⟨[c] :: before, front, ?_, by simp [htext]⟩
      simp_all [Scan.words, Scan.extend]
    | some first =>
      cases before with
      | nil =>
        refine ⟨[], c :: front, ?_, by simp_all⟩
        simp_all [Scan.words, Scan.extend]
      | cons w before =>
        refine ⟨(c :: w) :: before, front, ?_, by simp_all⟩
        simp_all [Scan.words, Scan.extend]
  | @opened text f h ih =>
    obtain ⟨before, front, hwords, htext⟩ := ih
    cases hfirst : (f s).word with
    | none =>
      refine ⟨[] :: before, front, ?_, by simp [htext]⟩
      simp_all [Scan.words, Scan.opened]
    | some first =>
      refine ⟨before, front, ?_, htext⟩
      simp_all [Scan.words, Scan.opened]
  | ended h ih => exact ih

end Puts

/-- The scan keeps `text` of `a`, whatever stands behind it, if that does not begin with
a quote. -/
def Reads (quoting : Quoting) (a text : List Char) : Prop :=
  ∃ f last, Puts text f ∧ ∀ b, (∀ rest, b ≠ '\'' :: rest) → (∀ rest, b ≠ '"' :: rest) →
    scan quoting (a ++ b) = (scan last b).map f

theorem append_ne_cons {cs b : List Char} {d : Char} (h : ∀ rest, cs ≠ d :: rest)
    (hb : ∀ rest, b ≠ d :: rest) (rest : List Char) : cs ++ b ≠ d :: rest := by
  cases cs with
  | nil => exact hb rest
  | cons e cs =>
    intro heq
    exact h cs (by rw [(List.cons.inj heq).1])

theorem Reads.step {quoting quoting' : Quoting} {a a' text text' : List Char} {g : Scan → Scan}
    (h : Reads quoting' a' text) (hputs : ∀ {f}, Puts text f → Puts text' fun s => g (f s))
    (hscan : ∀ b, (∀ rest, b ≠ '\'' :: rest) → (∀ rest, b ≠ '"' :: rest) →
      scan quoting (a ++ b) = (scan quoting' (a' ++ b)).map g) : Reads quoting a text' := by
  obtain ⟨f, last, hf, hread⟩ := h
  refine ⟨_, last, hputs hf, fun b hmark hquote => ?_⟩
  rw [hscan b hmark hquote, hread b hmark hquote, Option.map_map]
  rfl

/-- Outside of quotes a character is read on its own, unless it is a quote or escapes one. -/
theorem scan_bare_cons {c : Char} {cs : List Char} (hmark : c ≠ '\'') (hquote : c ≠ '"')
    (hescape : ∀ rest, c = '\\' → cs ≠ '\'' :: rest)
    (hescape' : ∀ rest, c = '\\' → cs ≠ '"' :: rest) :
    scan .bare (c :: cs) =
      (scan .bare cs).map (if Text.isBlank c then Scan.ended else Scan.extend c) := by
  rw [scan]
  · exact hescape
  · exact hescape'
  · exact hmark
  · exact hquote

theorem scan_bare_append {c : Char} {cs b : List Char} (hmark : c ≠ '\'') (hquote : c ≠ '"')
    (hescape : ∀ rest, c = '\\' → cs ≠ '\'' :: rest)
    (hescape' : ∀ rest, c = '\\' → cs ≠ '"' :: rest)
    (hb : ∀ rest, b ≠ '\'' :: rest) (hb' : ∀ rest, b ≠ '"' :: rest) :
    scan .bare (c :: cs ++ b) =
      (scan .bare (cs ++ b)).map (if Text.isBlank c then Scan.ended else Scan.extend c) :=
  scan_bare_cons hmark hquote
    (fun rest hslash => append_ne_cons (fun rest => hescape rest hslash) hb rest)
    (fun rest hslash => append_ne_cons (fun rest => hescape' rest hslash) hb' rest)

theorem reads_kept (quoting : Quoting) (a : List Char) : Reads quoting a (kept quoting a) := by
  fun_induction kept quoting a with
  | case1 quoting => exact ⟨_, quoting, .nothing, fun b _ _ => by simp⟩
  | case2 cs ih => exact ih.step (g := fun s => s) id fun b _ _ => by simp [scan]
  | case3 c cs hc ih =>
    refine ih.step (.extend c) fun b _ _ => ?_
    rw [List.cons_append, scan]
    exact hc
  | case4 cs ih => exact ih.step (.extend '"') fun b _ _ => by simp [scan]
  | case5 cs ih => exact ih.step (g := fun s => s) id fun b _ _ => by simp [scan]
  | case6 c cs hescape hc ih =>
    refine ih.step (.extend c) fun b _ hb => ?_
    rw [List.cons_append, scan]
    · exact fun rest hslash => append_ne_cons (fun rest => hescape rest hslash) hb rest
    · exact hc
  | case7 cs ih => exact ih.step (.extend '\'') fun b _ _ => by simp [scan]
  | case8 cs ih => exact ih.step (.extend '"') fun b _ _ => by simp [scan]
  | case9 cs ih => exact ih.step .opened fun b _ _ => by simp [scan]
  | case10 cs ih => exact ih.step .opened fun b _ _ => by simp [scan]
  | case11 c cs hescape hescape' hmark hquote hblank ih =>
    refine ih.step .ended fun b hb hb' => ?_
    rw [scan_bare_append hmark hquote hescape hescape' hb hb', if_pos hblank]
  | case12 c cs hescape hescape' hmark hquote hblank ih =>
    refine ih.step (.extend c) fun b hb hb' => ?_
    rw [scan_bare_append hmark hquote hescape hescape' hb hb', if_neg hblank]

/-- A text whose quotes are closed is read on its own. Otherwise its last word goes on
behind a blank. -/
theorem scan_cases (a : List Char) : ∃ f, Puts (kept .bare a) f ∧
    ((scan .bare a = some (f .done) ∧
        ∀ b, scan .bare (a ++ ' ' :: b) = (scan .bare b).map fun s => f s.ended) ∨
      (scan .bare a = none ∧ ∃ quoting, ∀ b, scan .bare (a ++ ' ' :: '-' :: b) =
        (scan quoting b).map fun s => f ((s.extend '-').extend ' '))) := by
  obtain ⟨f, last, hf, hread⟩ := reads_kept .bare a
  have hend := hread [] (by simp) (by simp)
  rw [List.append_nil] at hend
  refine ⟨f, hf, ?_⟩
  cases last with
  | bare =>
    have hblank : Text.isBlank ' ' = true := by decide
    refine Or.inl ⟨hend, fun b => ?_⟩
    rw [hread _ (by simp) (by simp)]
    simp [scan, hblank, Function.comp_def]
  | single =>
    refine Or.inr ⟨hend, .single, fun b => ?_⟩
    rw [hread _ (by simp) (by simp)]
    simp [scan, Function.comp_def]
  | double =>
    refine Or.inr ⟨hend, .double, fun b => ?_⟩
    rw [hread _ (by simp) (by simp)]
    simp [scan, Function.comp_def]

/-- A part with closed quotes is read on its own. -/
theorem ofLine?_append {a : String} {words : List String} (h : ofLine? a = some words)
    (b : String) : ofLine? (a ++ " " ++ b) = (ofLine? b).map (words ++ ·) := by
  have hline : (a ++ " " ++ b).toList = a.toList ++ ' ' :: b.toList := by simp
  obtain ⟨f, hf, ⟨hscan, hread⟩ | ⟨hscan, _⟩⟩ := scan_cases a.toList
  · rw [ofLine?, hscan] at h
    obtain rfl := Option.some.inj h
    rw [ofLine?, ofLine?, hline, hread]
    simp [Function.comp_def, hf.apply_ended, Scan.words_followed]
  · rw [ofLine?, hscan] at h
    cases h

theorem flatMap_toList_of_ofLine? {a : String} {words : List String}
    (h : ofLine? a = some words) : words.flatMap String.toList = kept .bare a.toList := by
  obtain ⟨f, hf, ⟨hscan, _⟩ | ⟨hscan, _⟩⟩ := scan_cases a.toList
  · rw [ofLine?, hscan] at h
    obtain rfl := Option.some.inj h
    have hwords := hf.flatten_words .done
    rw [show Scan.done.words.flatten = [] from rfl, List.append_nil] at hwords
    rw [← hwords]
    simp [List.flatMap_def, Function.comp_def]
  · rw [ofLine?, hscan] at h
    cases h

/-- The last word of a part with open quotes goes on behind the blank. -/
theorem exists_open_word {a b : String} {words : List String} (h : ofLine? a = none)
    (hwords : ofLine? (a ++ " -" ++ b) = some words) :
    ∃ before front rest later, words = before ++ (front ++ " -" ++ rest) :: later ∧
      before.flatMap String.toList ++ front.toList = kept .bare a.toList := by
  have hline : (a ++ " -" ++ b).toList = a.toList ++ ' ' :: '-' :: b.toList := by simp
  obtain ⟨f, hf, ⟨hscan, _⟩ | ⟨_, quoting, hread⟩⟩ := scan_cases a.toList
  · rw [ofLine?, hscan] at h
    cases h
  · rw [ofLine?, hline, hread] at hwords
    obtain ⟨s, hs, rfl⟩ := Option.map_eq_some_iff.1 hwords
    obtain ⟨s, _, rfl⟩ := Option.map_eq_some_iff.1 hs
    have hword : ((s.extend '-').extend ' ').word = some (' ' :: '-' :: s.word.getD []) := rfl
    obtain ⟨before, front, hsplit, hkept⟩ := hf.exists_words hword
    refine ⟨before.map String.ofList, String.ofList front, String.ofList (s.word.getD []),
      s.later.map String.ofList, ?_, ?_⟩
    · rw [hsplit]
      simp [Scan.extend, ← String.toList_inj]
    · rw [← hkept]
      simp [List.flatMap_def, Function.comp_def]

def Unopened (cs : List Char) : Prop := ∀ more, cs ≠ '\'' :: more ∧ cs ≠ '"' :: more

theorem unopened_nil : Unopened [] := by
  simp [Unopened]

theorem map_opened_extend (c : Char) (o : Option Scan) :
    (o.map (Scan.extend c)).map Scan.opened = (o.map Scan.opened).map (Scan.extend c) := by
  rw [Option.map_map, Option.map_map]
  rfl

theorem map_begun_cons (c : Char) (cs : List Char) (o : Option Scan) :
    o.map (Scan.begun (c :: cs)) = (o.map (Scan.begun cs)).map (Scan.extend c) := by
  rw [Option.map_map]
  rfl

theorem scan_bare_text {cs : List Char} (hne : cs ≠ [])
    (h : ∀ c ∈ cs, Text.isBlank c = false ∧ c ≠ '\'' ∧ c ≠ '"') (rest : List Char)
    (hrest : cs.getLast? = some '\\' → Unopened rest) :
    scan .bare (cs ++ rest) = (scan .bare rest).map (Scan.begun cs) := by
  induction cs with
  | nil => exact absurd rfl hne
  | cons c cs ih =>
    obtain ⟨⟨hblank, hmark, hquote⟩, hcs⟩ := List.forall_mem_cons.1 h
    have hnext (hslash : c = '\\') : Unopened (cs ++ rest) := by
      cases cs with
      | nil => exact hrest (by simp [hslash])
      | cons d cs =>
        obtain ⟨_, hmark', hquote'⟩ := hcs d List.mem_cons_self
        exact fun more => ⟨fun heq => hmark' (List.cons.inj heq).1,
          fun heq => hquote' (List.cons.inj heq).1⟩
    rw [List.cons_append, scan_bare_cons hmark hquote (fun more hslash => (hnext hslash more).1)
      (fun more hslash => (hnext hslash more).2), hblank, if_neg Bool.false_ne_true]
    cases cs with
    | nil => rfl
    | cons d cs =>
      rw [ih (List.cons_ne_nil d cs) hcs (by simpa using hrest), ← map_begun_cons]

theorem ofLine?_of_bare {a : String} (hne : a ≠ "")
    (h : ∀ c ∈ a.toList, Text.isBlank c = false ∧ c ≠ '\'' ∧ c ≠ '"') : ofLine? a = some [a] := by
  have hscan := scan_bare_text (mt String.toList_eq_nil_iff.1 hne) h []
    fun _ => unopened_nil
  rw [List.append_nil] at hscan
  rw [ofLine?, hscan]
  simp [scan, Scan.begun, Scan.done, Scan.words]

/-- Within single quotes only an apostrophe has a meaning. -/
theorem scan_single_text {cs : List Char} (h : '\'' ∉ cs) (rest : List Char) :
    (scan .single (cs ++ '\'' :: rest)).map Scan.opened =
      (scan .bare rest).map (Scan.begun cs) := by
  induction cs with
  | nil => rfl
  | cons c cs ih =>
    rw [List.mem_cons, not_or] at h
    rw [List.cons_append, scan, map_opened_extend, ih h.2, map_begun_cons]
    exact Ne.symm h.1

theorem ofLine?_quoted {a : String} (h : '\'' ∉ a.toList) :
    ofLine? ("'" ++ a ++ "'") = some [a] := by
  have hline : ("'" ++ a ++ "'").toList = '\'' :: (a.toList ++ ['\'']) := by simp
  rw [ofLine?, hline, scan, scan_single_text h]
  simp [scan, Scan.begun, Scan.done, Scan.words]

def IsUnquoted (a : String) : Prop := '\'' ∉ a.toList ∧ '"' ∉ a.toList

instance (a : String) : Decidable (IsUnquoted a) := inferInstanceAs (Decidable (_ ∧ _))

def firstRun (cs : List Char) : Option (List Char) :=
  if cs.takeWhile (!Text.isBlank ·) = [] then none else some (cs.takeWhile (!Text.isBlank ·))

theorem scan_cons_of_not_mem {c : Char} {cs : List Char} (hmark : '\'' ∉ c :: cs)
    (hquote : '"' ∉ c :: cs) : scan .bare (c :: cs) =
      (scan .bare cs).map (if Text.isBlank c then Scan.ended else Scan.extend c) := by
  rw [List.mem_cons, not_or] at hmark hquote
  apply scan_bare_cons (Ne.symm hmark.1) (Ne.symm hquote.1)
  · rintro rest _ rfl
    exact hmark.2 List.mem_cons_self
  · rintro rest _ rfl
    exact hquote.2 List.mem_cons_self

theorem not_quote_of_isBlank {c : Char} (h : Text.isBlank c = true) :
    ¬ (c = '"' ∨ c = '\'') := by
  rintro (rfl | rfl)
  · exact absurd h (by decide)
  · exact absurd h (by decide)

theorem looseFrom_blank {c : Char} (h : Text.isBlank c = true) (cs : List Char) :
    looseFrom 0 (c :: cs) = looseFrom 0 cs := by
  rw [looseFrom, if_neg (not_quote_of_isBlank h)]
  simp only [h, if_true]

theorem looseFrom_run {c : Char} (hblank : Text.isBlank c = false) (hquote : ¬ (c = '"' ∨ c = '\''))
    (cs : List Char) : looseFrom 0 (c :: cs) =
      (c :: cs).takeWhile (!Text.isBlank ·) ::
        looseFrom 0 ((c :: cs).dropWhile (!Text.isBlank ·)) := by
  have hdrop : cs.drop (cs.takeWhile (!Text.isBlank ·)).length =
      cs.dropWhile (!Text.isBlank ·) := by
    have hsplit := List.takeWhile_append_dropWhile (p := (!Text.isBlank ·)) (l := cs)
    exact (congrArg (List.drop _) hsplit.symm).trans List.drop_left
  rw [looseFrom, if_neg hquote]
  simp only [hblank, Bool.false_eq_true, if_false]
  rw [looseFrom_eq_drop, hdrop]
  simp [hblank]

theorem looseFrom_of_not_mem {cs : List Char} (hmark : '\'' ∉ cs) (hquote : '"' ∉ cs) :
    looseFrom 0 cs = (firstRun cs).toList ++ looseFrom 0 (cs.dropWhile (!Text.isBlank ·)) := by
  cases cs with
  | nil => rfl
  | cons c cs =>
    cases hblank : Text.isBlank c with
    | true => simp [firstRun, hblank]
    | false =>
      rw [List.mem_cons, not_or] at hmark hquote
      rw [looseFrom_run hblank (not_or.2 ⟨Ne.symm hquote.1, Ne.symm hmark.1⟩)]
      simp [firstRun, hblank]

theorem scan_of_not_mem {cs : List Char} (hmark : '\'' ∉ cs) (hquote : '"' ∉ cs) :
    scan .bare cs = some ⟨firstRun cs, looseFrom 0 (cs.dropWhile (!Text.isBlank ·))⟩ := by
  induction cs with
  | nil => rfl
  | cons c cs ih =>
    rw [scan_cons_of_not_mem hmark hquote]
    rw [List.mem_cons, not_or] at hmark hquote
    rw [ih hmark.2 hquote.2, Option.map_some]
    cases hblank : Text.isBlank c with
    | true =>
      simp [Scan.ended, Scan.words, firstRun, hblank, looseFrom_blank,
        looseFrom_of_not_mem hmark.2 hquote.2]
    | false =>
      have hrest : (firstRun cs).getD [] = cs.takeWhile (!Text.isBlank ·) := by
        unfold firstRun
        split <;> simp_all
      rw [if_neg Bool.false_ne_true, Scan.extend]
      simp only [hrest]
      simp [firstRun, hblank]

theorem ofLine?_of_isUnquoted {a : String} (h : IsUnquoted a) : ofLine? a = some (splitLoose a) := by
  rw [ofLine?, scan_of_not_mem h.1 h.2, splitLoose, looseFrom_of_not_mem h.1 h.2]
  rfl

theorem kept_bare_of_not_mem {cs : List Char} (hmark : '\'' ∉ cs) (hquote : '"' ∉ cs) :
    kept .bare cs = cs.filter (!Text.isBlank ·) := by
  generalize hbare : Quoting.bare = quoting
  fun_induction kept quoting cs with
  | case1 => rfl
  | case2 | case3 | case4 | case5 | case6 => cases hbare
  | case7 | case9 => simp at hmark
  | case8 | case10 => simp at hquote
  | case11 c cs _ _ _ _ hblank ih =>
    rw [List.mem_cons, not_or] at hmark hquote
    rw [ih hmark.2 hquote.2 rfl, List.filter_cons_of_neg (by simp [hblank])]
  | case12 c cs _ _ _ _ hblank ih =>
    rw [List.mem_cons, not_or] at hmark hquote
    rw [ih hmark.2 hquote.2 rfl, List.filter_cons_of_pos (by simpa using hblank)]

/-- A text without quotes is a single word exactly if it has no blank. -/
theorem splitLoose_eq_singleton_iff {a : String} (h : IsUnquoted a) (hne : a ≠ "") :
    splitLoose a = [a] ↔ ∀ c ∈ a.toList, Text.isBlank c = false := by
  have hloose := ofLine?_of_isUnquoted h
  constructor
  · intro hword
    have hkept := flatMap_toList_of_ofLine? hloose
    rw [hword, kept_bare_of_not_mem h.1 h.2] at hkept
    have hall := List.filter_eq_self.1 (hkept.symm.trans (by simp))
    simpa using hall
  · intro hall
    have hword : ofLine? a = some [a] := by
      apply ofLine?_of_bare hne
      intro c hc
      refine ⟨hall c hc, ?_, ?_⟩
      · rintro rfl
        exact h.1 hc
      · rintro rfl
        exact h.2 hc
    exact Option.some.inj (hloose.symm.trans hword)

end Montage.Words
