import Montage.Proofs.Profile.Layout

/-!
# Properties line by line

An entry may go over several lines. `readLine` reads one of them: it says what is pending behind
the line, and which entry the line completes. The first line of an entry is read without the
blanks around it, and what is read of a complete entry does not depend on blanks behind it. So
blanks at the ends of lines say nothing (`Padded.propertiesFrom_eq`), but for one kind of line: a
continuation that goes on is read with the blanks behind its backslash, and then it does not go on.

Blank lines at the end say something if an entry is left open there: an open entry is no entry,
and they complete it (`propertiesFrom_blankLines`).
-/

namespace Montage

namespace Properties

variable {pending line blanks : List Char} {lines lines' : List (List Char)}

/-- What is pending behind a line, and the entry that the line completes. -/
def readLine (pending line : List Char) : List Char × Option (List Char) :=
  let content := if pending.isEmpty then Text.trim line else Text.trimStart line
  if pending.isEmpty && isComment content then ([], none)
  else if continues content then (pending ++ content.dropLast, none)
  else ([], some (pending ++ content))

def openAfter (pending : List Char) (lines : List (List Char)) : List Char :=
  lines.foldl (fun pending line => (readLine pending line).1) pending

def propertiesFrom (pending : List Char) (lines : List (List Char)) : List (String × String) :=
  (entriesFrom pending lines).filterMap keyValue?

/-- The line is not the first one of its entry, nor the last one. -/
def GoesOn (pending line : List Char) : Prop :=
  pending ≠ [] ∧ continues (Text.trimStart line) = true

instance (pending line : List Char) : Decidable (GoesOn pending line) :=
  inferInstanceAs (Decidable (_ ∧ _))

theorem readLine_nil (line : List Char) :
    readLine [] line =
      if isComment (Text.trim line) then ([], none)
      else if continues (Text.trim line) then ((Text.trim line).dropLast, none)
      else ([], some (Text.trim line)) := rfl

theorem readLine_of_ne_nil (h : pending ≠ []) (line : List Char) :
    readLine pending line =
      if continues (Text.trimStart line) then
        (pending ++ (Text.trimStart line).dropLast, none)
      else ([], some (pending ++ Text.trimStart line)) := by
  simp [readLine, h]

theorem entriesFrom_cons (pending line : List Char) (lines : List (List Char)) :
    entriesFrom pending (line :: lines) =
      (readLine pending line).2.toList ++ entriesFrom (readLine pending line).1 lines := by
  by_cases h : pending = []
  · subst h
    rw [readLine_nil]
    simp only [entriesFrom, List.isEmpty_nil, if_true]
    split_ifs <;> rfl
  · rw [readLine_of_ne_nil h]
    simp only [entriesFrom, List.isEmpty_iff, if_neg h]
    split_ifs <;> rfl

theorem propertiesFrom_cons (pending line : List Char) (lines : List (List Char)) :
    propertiesFrom pending (line :: lines) =
      ((readLine pending line).2.bind keyValue?).toList ++
        propertiesFrom (readLine pending line).1 lines := by
  rw [propertiesFrom, entriesFrom_cons, List.filterMap_append]
  cases (readLine pending line).2 with
  | none => rfl
  | some entry => cases h : keyValue? entry <;> simp [propertiesFrom, h]

theorem propertiesFrom_append (pending : List Char) (lines more : List (List Char)) :
    propertiesFrom pending (lines ++ more) =
      propertiesFrom pending lines ++ propertiesFrom (openAfter pending lines) more := by
  induction lines generalizing pending with
  | nil => rfl
  | cons line lines ih =>
    rw [List.cons_append, propertiesFrom_cons, propertiesFrom_cons, ih, List.append_assoc]
    rfl

theorem ofText_eq (text : String) :
    ofText text = .ofList (propertiesFrom [] (Text.linesOf text.toList)) := rfl

section Blanks

variable (hblanks : ∀ c ∈ blanks, Text.isBlank c = true)
include hblanks

theorem continues_append_blanks (hne : blanks ≠ []) (cs : List Char) :
    continues (cs ++ blanks) = false := by
  obtain ⟨front, last, rfl⟩ : ∃ front last, blanks = front ++ [last] :=
    ⟨_, _, (List.dropLast_append_getLast hne).symm⟩
  have hlast : (last == '\\') = false := by
    rw [beq_eq_false_iff_ne]
    rintro rfl
    exact absurd (hblanks '\\' (by simp)) (by decide)
  rw [continues, ← List.append_assoc, List.reverse_append, List.reverse_singleton,
    List.singleton_append, List.takeWhile_cons, hlast]
  rfl

theorem keyValue?_append_blanks (entry : List Char) :
    keyValue? (entry ++ blanks) = keyValue? entry := by
  have hplain : ∀ c ∈ blanks, (c == '=' || c == ':') = false := by
    intro c hc
    have hblank := hblanks c hc
    by_contra hsign
    simp only [Bool.not_eq_false, Bool.or_eq_true, beq_iff_eq] at hsign
    rcases hsign with rfl | rfl <;> exact absurd hblank (by decide)
  unfold keyValue?
  cases hsplit : Text.splitFirst? (fun c => c == '=' || c == ':') entry with
  | none =>
    have hnone : Text.splitFirst? (fun c => c == '=' || c == ':') (entry ++ blanks) = none := by
      rw [Text.splitFirst?_eq_none_iff] at hsplit ⊢
      exact fun c hc => (List.mem_append.1 hc).elim (hsplit c) (hplain c)
    rw [hnone]
  | some parts =>
    obtain ⟨key, value⟩ := parts
    obtain ⟨hkey, sign, hsign, rfl⟩ := Text.splitFirst?_eq_some hsplit
    rw [List.append_assoc, List.cons_append, Text.splitFirst?_append hkey hsign]
    simp only [Text.trim_append_blanks hblanks]

/-- Blanks behind a line change nothing, unless the line is a continuation that goes on. -/
theorem readLine_append_blanks (hsafe : GoesOn pending line → blanks = []) :
    (readLine pending (line ++ blanks)).1 = (readLine pending line).1 ∧
      (readLine pending (line ++ blanks)).2.bind keyValue? =
        (readLine pending line).2.bind keyValue? := by
  by_cases hpending : pending = []
  · subst hpending
    rw [readLine_nil, Text.trim_append_blanks hblanks, readLine_nil]
    exact ⟨rfl, rfl⟩
  by_cases hempty : blanks = []
  · rw [hempty, List.append_nil]
    exact ⟨rfl, rfl⟩
  have hlast : continues (Text.trimStart line) = false := by
    rw [← Bool.not_eq_true]
    exact fun hcontinues => hempty (hsafe ⟨hpending, hcontinues⟩)
  rw [readLine_of_ne_nil hpending, readLine_of_ne_nil hpending, Text.trimStart_append_eq_ite,
    Text.trimStart_eq_nil hblanks]
  by_cases hstart : Text.trimStart line = []
  · rw [if_pos hstart, hstart]
    exact ⟨rfl, rfl⟩
  · rw [if_neg hstart, hlast, continues_append_blanks hblanks hempty, ← List.append_assoc]
    exact ⟨rfl, keyValue?_append_blanks hblanks _⟩

end Blanks

/-- The second lines are the first ones with blanks behind them, except behind the backslash of a
continuation that goes on. -/
inductive Padded : List Char → List (List Char) → List (List Char) → Prop where
  | nil (pending : List Char) : Padded pending [] []
  | cons {pending line blanks : List Char} {lines lines' : List (List Char)}
      (blank : ∀ c ∈ blanks, Text.isBlank c = true) (safe : GoesOn pending line → blanks = [])
      (later : Padded (readLine pending line).1 lines lines') :
      Padded pending (line :: lines) ((line ++ blanks) :: lines')

/-- Padded lines write the same properties and leave the same open. -/
theorem Padded.propertiesFrom_eq (h : Padded pending lines lines') :
    propertiesFrom pending lines' = propertiesFrom pending lines ∧
      openAfter pending lines' = openAfter pending lines := by
  induction h with
  | nil => exact ⟨rfl, rfl⟩
  | cons blank safe _ ih =>
    obtain ⟨hpending, hentry⟩ := readLine_append_blanks blank safe
    rw [← hpending] at ih
    rw [propertiesFrom_cons, propertiesFrom_cons, hentry, ← hpending, ih.1]
    exact ⟨rfl, ih.2.trans (by rw [openAfter, openAfter, List.foldl_cons, hpending])⟩

theorem Padded.refl (pending : List Char) (lines : List (List Char)) :
    Padded pending lines lines := by
  induction lines generalizing pending with
  | nil => exact .nil pending
  | cons line lines ih =>
    have hlines := Padded.cons (by simp) (fun _ => rfl) (ih (readLine pending line).1)
    rwa [List.append_nil] at hlines

theorem Padded.append {front front' : List (List Char)} (hfront : Padded pending front front')
    (h : Padded (openAfter pending front) lines lines') :
    Padded pending (front ++ lines) (front' ++ lines') := by
  induction hfront with
  | nil => exact h
  | cons blank safe _ ih => exact .cons blank safe (ih h)

theorem Padded.not_mem {c : Char} (h : Padded pending lines lines')
    (hlines : ∀ line ∈ lines', c ∉ line) : ∀ line ∈ lines, c ∉ line := by
  induction h with
  | nil => exact hlines
  | cons _ _ _ ih =>
    rw [List.forall_mem_cons, List.mem_append, not_or] at hlines
    exact List.forall_mem_cons.2 ⟨hlines.1.1, ih hlines.2⟩

theorem readLine_of_blank (pending : List Char) (hline : ∀ c ∈ line, Text.isBlank c = true) :
    (readLine pending line).1 = [] ∧
      (readLine pending line).2.bind keyValue? = keyValue? pending := by
  have hstart : Text.trimStart line = [] := Text.trimStart_eq_nil hline
  by_cases hpending : pending = []
  · subst hpending
    rw [readLine_nil, Text.trim, hstart]
    exact ⟨rfl, rfl⟩
  · rw [readLine_of_ne_nil hpending, hstart]
    exact ⟨rfl, congrArg keyValue? (List.append_nil _)⟩

theorem propertiesFrom_blankLines (hlines : ∀ line ∈ lines, ∀ c ∈ line, Text.isBlank c = true)
    (hne : lines ≠ []) : propertiesFrom pending lines = (keyValue? pending).toList := by
  induction lines generalizing pending with
  | nil => exact absurd rfl hne
  | cons line lines ih =>
    rw [List.forall_mem_cons] at hlines
    obtain ⟨hopen, hentry⟩ := readLine_of_blank pending hlines.1
    rw [propertiesFrom_cons, hentry, hopen]
    by_cases hlast : lines = []
    · subst hlast
      exact List.append_nil _
    · rw [ih hlines.2 hlast]
      exact List.append_nil _

theorem head?_openAfter (h : ∀ c ∈ pending.head?, Text.isBlank c = false) :
    ∀ c ∈ (openAfter pending lines).head?, Text.isBlank c = false := by
  induction lines generalizing pending with
  | nil => exact h
  | cons line lines ih =>
    refine ih ?_
    dsimp only
    by_cases hpending : pending = []
    · subst hpending
      rw [readLine_nil]
      split_ifs
      · simp
      · intro c hc
        rw [List.head?_dropLast] at hc
        split_ifs at hc
        · exact Text.head?_trim c hc
        · cases hc
      · simp
    · rw [readLine_of_ne_nil hpending]
      split_ifs
      · rw [List.head?_append_of_ne_nil _ hpending]
        exact h
      · simp

end Properties

end Montage
