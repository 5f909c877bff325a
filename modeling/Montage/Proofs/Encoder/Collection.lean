import Mathlib.Data.List.Basic
import Montage.Encoder.Announcement

/-!
# Which files are collected

Each line is read on its own and announces one file at most. What happens to the file is said
by `Recorded`: it is put behind the files that are known, unless one of them is the same path.

So the known files differ from each other and lead to files after every line
(`AreCollected.observe`), no file is ever moved or dropped (`prefix_foldl_observe`), and a line
that was read once says nothing new (`observe_eq_self_of_prefix`). After a whole transcript the
known files are the announced ones in the order of their first announcement
(`collect_eq_eraseDupsBy`).
-/

namespace Montage.Encoder

/-- A file is recorded: the same path is known already, or the file is put at the end. -/
inductive Recorded (files : List Path) (file : Path) : List Path → Prop where
  | known : (∃ other ∈ files, other.same file = true) → Recorded files file files
  | new : (∀ other ∈ files, other.same file = false) → Recorded files file (files ++ [file])

/-- Paths that differ from each other and lead to files. -/
structure AreCollected (files : List Path) : Prop where
  apart : files.Pairwise fun p q => p.same q = false
  notSink : ∀ file ∈ files, isNullSink file.text = false

variable {files files' : List Path} {file : Path} {line : String}

theorem remember_of_known (h : ∃ other ∈ files, other.same file = true) :
    remember files file = files := by
  rw [remember, if_pos (by simpa using h)]

theorem remember_of_new (h : ∀ other ∈ files, other.same file = false) :
    remember files file = files ++ [file] := by
  rw [remember, if_neg (by simpa using h)]

theorem recorded_remember (files : List Path) (file : Path) :
    Recorded files file (remember files file) := by
  by_cases h : ∃ other ∈ files, other.same file = true
  · rw [remember_of_known h]
    exact .known h
  · have hnew : ∀ other ∈ files, other.same file = false := by simpa using h
    rw [remember_of_new hnew]
    exact .new hnew

theorem Recorded.exists_same (h : Recorded files file files') :
    ∃ other ∈ files', other.same file = true := by
  cases h with
  | known hknown => exact hknown
  | new => exact ⟨file, by simp, Path.same_refl file⟩

theorem Recorded.mem_cases (h : Recorded files file files') {other : Path} (hother : other ∈ files') :
    other ∈ files ∨ other = file := by
  cases h with
  | known => exact Or.inl hother
  | new => simpa using hother

theorem observe_of_announced?_some (h : announced? line = some file) (files : List Path) :
    observe files line = remember files file := by
  simp only [observe, h]

theorem isNullSink_of_announced? (h : announced? line = some file) :
    isNullSink file.text = false := by
  unfold announced? at h
  simp only at h
  split at h
  · split_ifs at h with hsink
    cases h
    simpa using hsink
  · cases h

theorem areCollected_nil : AreCollected [] := ⟨List.Pairwise.nil, by simp⟩

theorem AreCollected.of_recorded (h : AreCollected files) (hfile : isNullSink file.text = false)
    (hrecorded : Recorded files file files') : AreCollected files' := by
  cases hrecorded with
  | known => exact h
  | new hnew =>
    constructor
    · rw [List.pairwise_append]
      exact ⟨h.apart, List.pairwise_singleton _ _, by simpa using hnew⟩
    · rw [List.forall_mem_append, List.forall_mem_singleton]
      exact ⟨h.notSink, hfile⟩

theorem AreCollected.observe (h : AreCollected files) (line : String) :
    AreCollected (observe files line) := by
  cases hline : announced? line with
  | none => rwa [observe_of_announced?_none hline]
  | some file =>
    rw [observe_of_announced?_some hline]
    exact h.of_recorded (isNullSink_of_announced? hline) (recorded_remember files file)

theorem AreCollected.foldl_observe (h : AreCollected files) (lines : List String) :
    AreCollected (lines.foldl Encoder.observe files) := by
  induction lines generalizing files with
  | nil => exact h
  | cons line lines ih => exact ih (h.observe line)

theorem prefix_foldl_observe (files : List Path) (lines : List String) :
    files <+: lines.foldl observe files := by
  induction lines generalizing files with
  | nil => exact List.prefix_rfl
  | cons line lines ih => exact (prefix_observe files line).trans (ih _)

theorem collect_append (lines more : List String) :
    collect (lines ++ more) = more.foldl observe (collect lines) := List.foldl_append

/-- Once the file of a line is known, it stays known, so the line says nothing new. -/
theorem observe_eq_self_of_prefix (h : observe files line <+: files') :
    observe files' line = files' := by
  cases hline : announced? line with
  | none => exact observe_of_announced?_none hline
  | some file =>
    rw [observe_of_announced?_some hline] at h ⊢
    obtain ⟨other, hmem, hsame⟩ := (recorded_remember files file).exists_same
    exact remember_of_known ⟨other, h.subset hmem, hsame⟩

theorem foldl_remember (files announced : List Path) :
    announced.foldl remember files =
      files ++ (announced.filter fun p => !files.any (·.same p)).eraseDupsBy Path.same := by
  induction announced generalizing files with
  | nil => simp
  | cons file announced ih =>
    have hrecorded := recorded_remember files file
    rw [List.foldl_cons, ih]
    generalize remember files file = files' at hrecorded ⊢
    cases hrecorded with
    | known hknown =>
      have hany : files.any (·.same file) = true := by simpa using hknown
      rw [List.filter_cons_of_neg (by simp [hany])]
    | new hnew =>
      have hany : files.any (·.same file) = false := by simpa using hnew
      rw [List.filter_cons_of_pos (by simp [hany]), List.eraseDupsBy_cons, List.filter_filter,
        List.append_assoc, List.singleton_append]
      -- what is left is neither the file nor one that was known in front of it
      congr 3
      refine List.filter_congr fun p _ => ?_
      simp [Path.same_comm p file, Bool.and_comm]

theorem foldl_observe (files : List Path) (lines : List String) :
    lines.foldl observe files = (lines.filterMap announced?).foldl remember files := by
  induction lines generalizing files with
  | nil => rfl
  | cons line lines ih =>
    rw [List.foldl_cons, ih]
    cases hline : announced? line with
    | none => rw [observe_of_announced?_none hline, List.filterMap_cons_none hline]
    | some file =>
      rw [observe_of_announced?_some hline, List.filterMap_cons_some hline, List.foldl_cons]

/-- The collected files are the announced ones in the order of their first announcement. -/
theorem collect_eq_eraseDupsBy (lines : List String) :
    collect lines = (lines.filterMap announced?).eraseDupsBy Path.same := by
  rw [collect, foldl_observe, foldl_remember, List.nil_append, List.filter_eq_self.2 (by simp)]

/-- The collected files differ from each other and lead to files. Each stays where it was put
when its first announcement was read, and no line that was read once changes anything. -/
theorem collect_keeps_first (lines : List String) :
    AreCollected (collect lines) ∧
      (∀ seen, seen <+: lines → collect seen <+: collect lines) ∧
      (∀ line ∈ lines, observe (collect lines) line = collect lines) ∧
      collect lines = (lines.filterMap announced?).eraseDupsBy Path.same := by
  refine ⟨areCollected_nil.foldl_observe lines, ?_, ?_, collect_eq_eraseDupsBy lines⟩
  · rintro seen ⟨more, rfl⟩
    rw [collect_append]
    exact prefix_foldl_observe _ _
  · intro line hline
    obtain ⟨before, after, rfl⟩ := List.append_of_mem hline
    have hread : observe (collect before) line <+: collect (before ++ line :: after) := by
      rw [collect_append, List.foldl_cons]
      exact prefix_foldl_observe _ _
    exact observe_eq_self_of_prefix hread

example : collect ["Output #0, mp4, to './b':", "frame=1", "Output #1, mp4, to 'b':",
    "Output #2, mp4, to 'b/.':", "Output #0, mp4, to './b':"] = [⟨"./b"⟩, ⟨"b"⟩] := by decide

end Montage.Encoder
