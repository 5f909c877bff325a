import Mathlib.Data.List.Chain
import Mathlib.Order.Lattice
import Montage.Clip.Sanitize

/-!
# What becomes of a list of clips

Cleaning arranges clips, drops some, and joins one to the next, whatever the times are. It
takes no clip from another source and no start from nowhere, and it fails exactly if no clip
is longer than the gap (`sanitize_cases`). Neighbours that are left are not close, as a clip is
compared with the one that then stays in front of it (`isChain_joinClose`).
-/

namespace Montage.Clip

theorem singleSource_iff {τ : Type} {clips : List (Clip τ)} :
    singleSource clips = true ↔ ∀ a ∈ clips, ∀ b ∈ clips, a.source = b.source := by
  cases clips with
  | nil => simp [singleSource]
  | cons first clips =>
    simp only [singleSource, List.all_eq_true, beq_iff_eq]
    constructor
    · intro h a ha b hb
      rw [h a ha, h b hb]
    · intro h a ha
      exact h a ha first List.mem_cons_self

theorem filter_mergeSort {α : Type} {le : α → α → Bool}
    (htrans : ∀ a b c, le a b = true → le b c = true → le a c = true)
    (htotal : ∀ a b, (le a b || le b a) = true) {p : α → Bool}
    (hp : ∀ a b, p a = true → p b = true → le a b = true) (xs : List α) :
    (xs.mergeSort le).filter p = xs.filter p := by
  have htogether : (xs.filter p).Pairwise fun a b => le a b = true := by
    apply List.pairwise_of_forall_mem_list
    intro a ha b hb
    exact hp a b (List.mem_filter.1 ha).2 (List.mem_filter.1 hb).2
  have hsublist := (List.sublist_mergeSort htrans htotal htogether List.filter_sublist).filter p
  rw [List.filter_filter] at hsublist
  simp only [Bool.and_self] at hsublist
  exact (hsublist.eq_of_length ((List.mergeSort_perm xs le).filter p).length_eq.symm).symm

variable {τ : Type} [ClipTime τ] {gap : τ} {clips cleaned : List (Clip τ)}

section Arranging

theorem arrange_of_one_source (hsource : ∀ a ∈ clips, ∀ b ∈ clips, a.source = b.source) :
    arrange clips = clips.mergeSort fun a b => ClipTime.sorts a.start b.start :=
  if_pos (singleSource_iff.2 hsource)

theorem arrange_of_sources (h : ∃ a ∈ clips, ∃ b ∈ clips, a.source ≠ b.source) :
    arrange clips = clips := by
  obtain ⟨a, ha, b, hb, hne⟩ := h
  exact if_neg fun hsource => hne (singleSource_iff.1 hsource a ha b hb)

section Key

variable {κ : Type} [LinearOrder κ] (key : τ → κ)
  (hsorts : ∀ a b : τ, ClipTime.sorts a b = decide (key a ≤ key b))
include hsorts

theorem sorts_trans (a b c : τ) (hab : ClipTime.sorts a b = true)
    (hbc : ClipTime.sorts b c = true) : ClipTime.sorts a c = true := by
  rw [hsorts, decide_eq_true_iff] at *
  exact hab.trans hbc

theorem sorts_total (a b : τ) : (ClipTime.sorts a b || ClipTime.sorts b a) = true := by
  simpa [hsorts] using le_total (key a) (key b)

theorem pairwise_arrange (hsource : ∀ a ∈ clips, ∀ b ∈ clips, a.source = b.source) :
    (arrange clips).Pairwise fun a b => key a.start ≤ key b.start := by
  rw [arrange_of_one_source hsource]
  have hsorted := List.pairwise_mergeSort (fun a b c : Clip τ =>
    sorts_trans key hsorts a.start b.start c.start)
    (fun a b => sorts_total key hsorts a.start b.start) clips
  refine hsorted.imp fun {a b} hab => ?_
  rwa [hsorts, decide_eq_true_iff] at hab

/-- Clips that start together keep their order. -/
theorem filter_arrange [DecidableEq τ] (clips : List (Clip τ)) (t : τ) :
    (arrange clips).filter (·.start = t) = clips.filter (·.start = t) := by
  unfold arrange
  split
  · refine filter_mergeSort (fun a b c => sorts_trans key hsorts a.start b.start c.start)
      (fun a b => sorts_total key hsorts a.start b.start) (fun a b ha hb => ?_) clips
    rw [of_decide_eq_true ha, of_decide_eq_true hb, hsorts, decide_eq_true_iff]
  · rfl

end Key

theorem arrange_eq_self
    (h : clips.Pairwise fun a b => ClipTime.sorts a.start b.start = true) :
    arrange clips = clips := by
  unfold arrange
  split
  · exact List.mergeSort_of_pairwise h
  · rfl

theorem mem_arrange_iff {c : Clip τ} : c ∈ arrange clips ↔ c ∈ clips := by
  unfold arrange
  split
  · exact List.mem_mergeSort
  · exact Iff.rfl

theorem mem_longEnough_iff {c : Clip τ} :
    c ∈ longEnough gap clips ↔ c ∈ clips ∧ ClipTime.less gap c.duration = true := by
  rw [longEnough, List.mem_filter, mem_arrange_iff]

end Arranging

section Joining

variable {current next : Clip τ}

def origin (c : Clip τ) : Nat × τ := (c.source, c.start)

@[simp] theorem origin_withStop (c : Clip τ) (stop : τ) : (c.withStop stop).origin = c.origin := rfl

theorem closeTo_congr {b c : Clip τ} (h : b.origin = c.origin) (a : Clip τ) :
    closeTo gap a b = closeTo gap a c := by
  obtain ⟨hsource, hstart⟩ := Prod.mk.inj h
  rw [closeTo, closeTo, hsource, hstart]

theorem head?_joinClose (gap : τ) (current : Clip τ) (clips : List (Clip τ)) :
    (joinClose gap current clips).head?.map origin = some current.origin := by
  induction clips generalizing current with
  | nil => rfl
  | cons next clips ih =>
    rw [joinClose]
    split
    · exact ih (current.withStop next.stop)
    · rfl

theorem sublist_joinClose (gap : τ) (current : Clip τ) (clips : List (Clip τ)) :
    ((joinClose gap current clips).map origin).Sublist ((current :: clips).map origin) := by
  induction clips generalizing current with
  | nil => exact List.Sublist.refl _
  | cons next clips ih =>
    rw [joinClose]
    split
    · have hdropped : (current :: clips).Sublist (current :: next :: clips) :=
        (List.sublist_cons_self next clips).cons_cons current
      exact (ih (current.withStop next.stop)).trans (hdropped.map origin)
    · exact (ih next).cons_cons current.origin

/-- Clips that are left next to each other are not close. The first of them was compared as it
is now, and the second one has the start that it had then, so no law of arithmetic is needed. -/
theorem isChain_joinClose (gap : τ) (current : Clip τ) (clips : List (Clip τ)) :
    (joinClose gap current clips).IsChain fun a b => closeTo gap a b = false := by
  induction clips generalizing current with
  | nil => exact List.isChain_singleton current
  | cons next clips ih =>
    rw [joinClose]
    split
    · exact ih (current.withStop next.stop)
    · rename_i hclose
      refine List.isChain_cons.2 ⟨fun b hb => ?_, ih next⟩
      have horigin : b.origin = next.origin := by
        have hhead := head?_joinClose gap next clips
        rw [Option.mem_def.1 hb] at hhead
        exact Option.some.inj hhead
      rw [closeTo_congr horigin, Bool.eq_false_iff]
      exact hclose

theorem joinClose_eq_self
    (h : (current :: clips).IsChain fun a b => closeTo gap a b = false) :
    joinClose gap current clips = current :: clips := by
  induction clips generalizing current with
  | nil => rfl
  | cons next clips ih =>
    obtain ⟨hapart, hrest⟩ := List.isChain_cons_cons.1 h
    rw [joinClose, if_neg (by simp [hapart]), ih hrest]

end Joining

section Refusing

theorem sanitize?_eq_some_iff :
    sanitize? gap clips = some cleaned ↔
      ∃ first later, longEnough gap clips = first :: later ∧
        joinClose gap first later = cleaned := by
  unfold sanitize?
  split
  · simp_all
  · rename_i first later hlong
    simp [hlong]

theorem sanitize_eq_ok_iff :
    sanitize gap clips = .ok cleaned ↔
      ∃ first later, longEnough gap clips = first :: later ∧
        joinClose gap first later = cleaned := by
  rw [← sanitize?_eq_some_iff]
  unfold sanitize
  split
  · rename_i hempty
    obtain rfl := List.isEmpty_iff.1 hempty
    simp [sanitize?_eq_some_iff, longEnough, arrange, singleSource]
  · split <;> simp_all

/-- Clips are refused if there are none, or none is longer than the gap. -/
theorem sanitize_eq_error_iff {fault : Error} :
    sanitize gap clips = .error fault ↔
      clips = [] ∧ fault = .invalidEdit .noClips ∨
        clips ≠ [] ∧ (∀ c ∈ clips, ClipTime.less gap c.duration = false) ∧
          fault = .invalidEdit (.allTooShort (ClipTime.text gap)) := by
  have hshort : sanitize? gap clips = none ↔
      ∀ c ∈ clips, ClipTime.less gap c.duration = false := by
    rw [sanitize?_eq_none_iff, List.eq_nil_iff_forall_not_mem]
    simp only [mem_longEnough_iff, not_and, Bool.not_eq_true]
  unfold sanitize
  split
  · rename_i hempty
    obtain rfl := List.isEmpty_iff.1 hempty
    simpa using eq_comm
  · rename_i hsome
    rw [← hshort]
    rw [List.isEmpty_iff] at hsome
    split
    · rename_i hcleaned
      simp [hcleaned, hsome]
    · rename_i hcleaned
      simpa [hcleaned, hsome] using eq_comm

end Refusing

theorem of_sanitize_eq_ok (h : sanitize gap clips = .ok cleaned) :
    cleaned ≠ [] ∧ ∀ c ∈ cleaned, ∃ d ∈ clips, d.source = c.source ∧ d.start = c.start := by
  obtain ⟨first, later, hlong, rfl⟩ := sanitize_eq_ok_iff.1 h
  refine ⟨joinClose_ne_nil gap first later, fun c hc => ?_⟩
  have horigin := (sublist_joinClose gap first later).subset (List.mem_map_of_mem hc)
  obtain ⟨d, hd, hdc⟩ := List.mem_map.1 horigin
  rw [← hlong] at hd
  exact ⟨d, (mem_longEnough_iff.1 hd).1, Prod.mk.inj hdc⟩

theorem isChain_of_sanitize (h : sanitize gap clips = .ok cleaned) :
    cleaned.IsChain fun a b => closeTo gap a b = false := by
  obtain ⟨first, later, _, rfl⟩ := sanitize_eq_ok_iff.1 h
  exact isChain_joinClose gap first later

/-- Clips are refused if none is longer than the gap; otherwise some are left, and they start
where given clips do. -/
theorem sanitize_cases (gap : τ) (clips : List (Clip τ)) :
    ((∀ c ∈ clips, ClipTime.less gap c.duration = false) ∧
        ∃ fault, sanitize gap clips = .error (.invalidEdit fault)) ∨
      (∃ c ∈ clips, ClipTime.less gap c.duration = true) ∧
        ∃ cleaned, sanitize gap clips = .ok cleaned ∧ cleaned ≠ [] ∧
          ∀ c ∈ cleaned, ∃ d ∈ clips, d.source = c.source ∧ d.start = c.start := by
  cases hcleaned : sanitize gap clips with
  | error fault =>
    rcases sanitize_eq_error_iff.1 hcleaned with ⟨rfl, rfl⟩ | ⟨_, hshort, rfl⟩
    · exact Or.inl ⟨by simp, _, rfl⟩
    · exact Or.inl ⟨hshort, _, rfl⟩
  | ok cleaned =>
    obtain ⟨first, later, hlong, _⟩ := sanitize_eq_ok_iff.1 hcleaned
    have hfirst : first ∈ longEnough gap clips := hlong ▸ List.mem_cons_self
    obtain ⟨hmem, hless⟩ := mem_longEnough_iff.1 hfirst
    exact Or.inr ⟨⟨first, hmem, hless⟩, cleaned, rfl, of_sanitize_eq_ok hcleaned⟩

end Montage.Clip
