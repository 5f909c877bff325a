import Mathlib.Data.List.TakeWhile
import Montage.Proofs.Encoder.Collection
import Montage.Proofs.Text.Search
import Montage.Proofs.Text.Split

/-!
# Output lines are read exactly

An output line is written from the number of the output, its format and its target. Whatever
stands in the target, except for a line feed, the format and the target are read back
(`outputIn?_outputLine`): blanks end the number and the format, and the target goes up to the
last quote with a colon. So the target is recorded, unless it is no file or the output is
adaptive (`observe_outputLine`).
-/

namespace Montage.Encoder

def outputLine (index format target : String) : String :=
  "Output #" ++ index ++ ", " ++ format ++ ", to '" ++ target ++ "':"

/-- The number of an output is written with digits, and its format without blanks. -/
structure IsOutputHeader (index format : String) : Prop where
  index_ne : index ≠ ""
  digits : ∀ c ∈ index.toList, Text.isDigit c = true
  format_ne : format ≠ ""
  plain : ∀ c ∈ format.toList, Text.isBlank c = false

instance (index format : String) : Decidable (IsOutputHeader index format) :=
  decidable_of_iff
    ((index ≠ "" ∧ index.toList.all Text.isDigit = true) ∧
      format ≠ "" ∧ format.toList.all (!Text.isBlank ·) = true) <| by
    simp only [List.all_eq_true, Bool.not_eq_true']
    exact ⟨fun h => ⟨h.1.1, h.1.2, h.2.1, h.2.2⟩,
      fun h => ⟨⟨h.index_ne, h.digits⟩, h.format_ne, h.plain⟩⟩

/-- A target may hold the marks at its end, since the last ones count. -/
theorem untilLastQuoteColon_append {target : List Char} (h : '\n' ∉ target) :
    untilLastQuoteColon (target ++ ['\'', ':']) = some target := by
  have hline : ∀ c ∈ target ++ ['\'', ':'], (c != '\n') = true := by
    rw [List.forall_mem_append]
    refine ⟨fun c hc => ?_, by simp⟩
    rw [bne_iff_ne]
    rintro rfl
    exact h hc
  have hreverse : (target ++ ['\'', ':']).reverse = [':', '\''] ++ target.reverse := by simp
  rw [untilLastQuoteColon, List.takeWhile_eq_self_iff.2 hline, hreverse,
    Text.find?_append_self (by decide)]
  simp

theorem IsOutputHeader.outputAfterNumber?_append {index format : String}
    (h : IsOutputHeader index format) (rest : List Char) :
    outputAfterNumber? (index.toList ++ ", ".toList ++ format.toList ++ ", to '".toList ++ rest) =
      (untilLastQuoteColon rest).map fun target => (format.toList, target) := by
  have hwhole : index.toList ++ ", ".toList ++ format.toList ++ ", to '".toList ++ rest =
      index.toList ++ ',' :: ' ' :: (format.toList ++ [','] ++ ' ' :: ("to '".toList ++ rest)) := by
    simp
  have hcomma : Text.isDigit ',' = false := by decide
  have hrun : ∀ c ∈ format.toList ++ [','], (!Text.isBlank c) = true := by
    rw [List.forall_mem_append]
    exact ⟨fun c hc => by rw [h.plain c hc]; rfl, List.forall_mem_singleton.2 (by decide)⟩
  have hmark : " to '".toList.isPrefixOf? (' ' :: ("to '".toList ++ rest)) = some rest :=
    List.isPrefixOf?_eq_some_iff_append_eq.2 rfl
  have hne : format.toList ++ [','] ≠ [] := List.concat_ne_nil _ _
  have hlonger : (format.toList ++ [',']).getLast? = some ',' ∧
      1 < (format.toList ++ [',']).length := by
    have hpos := List.length_pos_iff.2 (mt String.toList_eq_nil_iff.1 h.format_ne)
    exact ⟨List.getLast?_concat, by simpa using hpos⟩
  obtain ⟨d, ds, hindex⟩ := List.exists_cons_of_ne_nil (mt String.toList_eq_nil_iff.1 h.index_ne)
  unfold outputAfterNumber?
  rw [hwhole, Text.takeWhile_append_cons h.digits hcomma, Text.dropWhile_append_cons h.digits hcomma,
    hindex]
  simp only
  rw [Text.takeWhile_append_cons hrun (by decide), Text.dropWhile_append_cons hrun (by decide),
    hmark]
  simp only [if_neg hne, if_pos hlonger, List.dropLast_concat]

theorem toList_outputLine (index format target : String) :
    (outputLine index format target).toList = "Output #".toList ++
      (index.toList ++ ", ".toList ++ format.toList ++ ", to '".toList ++
        (target.toList ++ ['\'', ':'])) := by
  simp [outputLine]

section OutputLine

variable {index format target : String} (h : IsOutputHeader index format)
  (htarget : '\n' ∉ target.toList)
include h htarget

theorem outputIn?_outputLine :
    outputIn? (outputLine index format target).toList = some (format.toList, target.toList) := by
  have hread := h.outputAfterNumber?_append (target.toList ++ ['\'', ':'])
  rw [toList_outputLine]
  generalize index.toList ++ ", ".toList ++ format.toList ++ ", to '".toList ++
    (target.toList ++ ['\'', ':']) = rest at hread ⊢
  have hstart : "Output #".toList.isPrefixOf? ("Output #".toList ++ rest) = some rest :=
    List.isPrefixOf?_eq_some_iff_append_eq.2 rfl
  obtain ⟨c, cs, hcons⟩ : ∃ c cs, "Output #".toList = c :: cs := ⟨_, _, rfl⟩
  rw [hcons, List.cons_append] at hstart ⊢
  rw [outputIn?, hcons, hstart, Option.bind_some, hread, untilLastQuoteColon_append htarget]
  rfl

theorem announced?_outputLine :
    announced? (outputLine index format target) =
      if Text.startsWith "hls" format ∨ isNullSink target then none else some ⟨target⟩ := by
  have hstart : Text.startsWith "Output #" (outputLine index format target) = true := by
    rw [Text.startsWith_iff, toList_outputLine]
    exact List.prefix_append _ _
  have hhls : "hls".toList.isPrefixOf format.toList = Text.startsWith "hls" format := rfl
  rw [announced?, if_pos hstart, outputIn?_outputLine h htarget]
  simp only [hhls]
  cases Text.startsWith "hls" format <;> simp

/-- An output line records its target, whatever stands in it, unless the target is no file or the
output is adaptive. Then it changes nothing. -/
theorem observe_outputLine (files : List Path) :
    (Text.startsWith "hls" format = false → isNullSink target = false →
        Recorded files ⟨target⟩ (observe files (outputLine index format target))) ∧
      (Text.startsWith "hls" format = true ∨ isNullSink target = true →
        observe files (outputLine index format target) = files) := by
  have hread := announced?_outputLine h htarget
  constructor
  · intro hhls hsink
    rw [if_neg (by simp [hhls, hsink])] at hread
    rw [observe_of_announced?_some hread]
    exact recorded_remember files ⟨target⟩
  · intro hnone
    rw [if_pos hnone] at hread
    exact observe_of_announced?_none hread

end OutputLine

/-- A target with the marks of its end in it, the same target in an adaptive output, and a target
that is no file. -/
theorem observe_outputLine_quoted :
    let files : List Path := [⟨"/out/a.mp4"⟩]
    IsOutputHeader "12" "mov,mp4,m4a" ∧ IsOutputHeader "0" "hls" ∧
      Recorded files ⟨"/out/it's ':1.mp4"⟩
        (observe files (outputLine "12" "mov,mp4,m4a" "/out/it's ':1.mp4")) ∧
      observe files (outputLine "0" "hls" "/out/it's ':1.mp4") = files ∧
      observe files (outputLine "12" "mov,mp4,m4a" "pipe:1") = files := by
  intro files
  have hmovie : IsOutputHeader "12" "mov,mp4,m4a" := by decide
  have hadaptive : IsOutputHeader "0" "hls" := by decide
  exact ⟨hmovie, hadaptive,
    (observe_outputLine hmovie (by decide) files).1 (by decide) (by decide),
    (observe_outputLine hadaptive (by decide) files).2 (by decide),
    (observe_outputLine hmovie (by decide) files).2 (by decide)⟩

end Montage.Encoder
