import Mathlib.Algebra.Order.Ring.Rat
import Mathlib.Data.List.Forall2
import Mathlib.Data.List.SplitBy
import Montage.Proofs.Clip.Sanitize

/-!
# The runs of a list of clips

With exact times, what cleaning makes of clips can be said without the cleaning. The clips
that are longer than the gap fall into runs, in which each cut is too short; a cut between
two runs is long enough or leads to another source. Each run becomes one clip, from the start
of its first clip to the end of its last one (`sanitize_eq_cleaned`).

The clip that is joined so far has the end of the last clip that was joined to it. So
comparing the next clip with it is comparing neighbours, and a run ends where the joining
stops.
-/

namespace Montage.Clip

structure IsSorted (clips sorted : List (Clip Rat)) : Prop where
  ordered : sorted.Pairwise fun a b => a.start ≤ b.start
  stable : ∀ t, sorted.filter (·.start = t) = clips.filter (·.start = t)

/-- Clips of one source are sorted, and others keep their order. -/
structure IsArranged (clips arranged : List (Clip Rat)) : Prop where
  sorted : (∀ a ∈ clips, ∀ b ∈ clips, a.source = b.source) → IsSorted clips arranged
  given : (∃ a ∈ clips, ∃ b ∈ clips, a.source ≠ b.source) → arranged = clips

def IsClose (gap : Rat) (a b : Clip Rat) : Prop :=
  b.source = a.source ∧ b.start - a.stop < gap

/-- Consecutive clips are in one run exactly if they are close. -/
structure AreRuns (gap : Rat) (clips : List (Clip Rat)) (runs : List (List (Clip Rat))) : Prop where
  flatten : clips = runs.flatten
  ne_nil : [] ∉ runs
  close : ∀ run ∈ runs, run.IsChain (IsClose gap)
  apart : runs.IsChain fun run next => ∃ ha hb, ¬ IsClose gap (run.getLast ha) (next.head hb)

/-- One clip that reaches from the start of the first clip to the end of the last one. -/
def IsJoined (run : List (Clip Rat)) (c : Clip Rat) : Prop :=
  ∃ first ∈ run.head?, ∃ last ∈ run.getLast?,
    c.source = first.source ∧ c.start = first.start ∧ c.stop = last.stop

/-- The runs of the arranged clips that are longer than the gap, each joined. -/
def IsCleaned (gap : Rat) (clips cleaned : List (Clip Rat)) : Prop :=
  ∃ arranged runs, IsArranged clips arranged ∧
    AreRuns gap (arranged.filter (gap < ·.duration)) runs ∧ List.Forall₂ IsJoined runs cleaned

variable {gap : Rat} {clips sorted arranged cleaned : List (Clip Rat)}

section Arranging

theorem start_le_of_mem {a c : Clip Rat}
    (h : (a :: clips).Pairwise fun a b => a.start ≤ b.start) (hc : c ∈ a :: clips) :
    a.start ≤ c.start := by
  rcases List.mem_cons.1 hc with rfl | hc
  · exact le_refl _
  · exact List.rel_of_pairwise_cons h hc

theorem IsSorted.eq {sorted' : List (Clip Rat)} (h : IsSorted clips sorted)
    (h' : IsSorted clips sorted') : sorted = sorted' := by
  have hstable (t : Rat) : sorted.filter (·.start = t) = sorted'.filter (·.start = t) :=
    (h.stable t).trans (h'.stable t).symm
  have hordered := h.ordered
  have hordered' := h'.ordered
  clear h h'
  induction sorted generalizing sorted' with
  | nil =>
    cases sorted' with
    | nil => rfl
    | cons b sorted' => simpa using hstable b.start
  | cons a sorted ih =>
    cases sorted' with
    | nil => simpa using hstable a.start
    | cons b sorted' =>
      have hmem (c : Clip Rat) : c ∈ a :: sorted ↔ c ∈ b :: sorted' := by
        have hc := congrArg (c ∈ ·) (hstable c.start)
        simpa only [List.mem_filter, decide_true, and_true] using Eq.to_iff hc
      have hstart : a.start = b.start :=
        le_antisymm (start_le_of_mem hordered ((hmem b).2 List.mem_cons_self))
          (start_le_of_mem hordered' ((hmem a).1 List.mem_cons_self))
      have hfirst := hstable a.start
      rw [List.filter_cons_of_pos (by simp), List.filter_cons_of_pos (by simp [hstart])] at hfirst
      obtain ⟨rfl, hrest⟩ := List.cons.inj hfirst
      congr 1
      refine ih (fun t => ?_) hordered.of_cons hordered'.of_cons
      by_cases ht : a.start = t
      · rw [← ht]
        exact hrest
      · have hother := hstable t
        rwa [List.filter_cons_of_neg (by simpa using ht),
          List.filter_cons_of_neg (by simpa using ht)] at hother

theorem IsArranged.eq {arranged' : List (Clip Rat)} (h : IsArranged clips arranged)
    (h' : IsArranged clips arranged') : arranged = arranged' := by
  by_cases hsource : ∀ a ∈ clips, ∀ b ∈ clips, a.source = b.source
  · exact (h.sorted hsource).eq (h'.sorted hsource)
  · push Not at hsource
    rw [h.given hsource, h'.given hsource]

theorem isArranged_arrange (clips : List (Clip Rat)) : IsArranged clips (arrange clips) where
  sorted hsource :=
    ⟨pairwise_arrange id (fun _ _ => rfl) hsource, filter_arrange id (fun _ _ => rfl) clips⟩
  given := arrange_of_sources

end Arranging

section Joining

variable {run : List (Clip Rat)} {runs : List (List (Clip Rat))} {current next c d : Clip Rat}

theorem closeTo_iff {a b : Clip Rat} : closeTo gap a b = true ↔ IsClose gap a b := by
  simp [closeTo, IsClose, ClipTime.less]

@[simp] theorem stop_withStop (c : Clip Rat) (stop : Rat) : (c.withStop stop).stop = stop :=
  add_sub_cancel c.start stop

/-- There is one way to cut clips into runs. -/
theorem areRuns_iff : AreRuns gap clips runs ↔ clips.splitBy (closeTo gap) = runs := by
  have hapart (a b : Clip Rat) : closeTo gap a b = false ↔ ¬ IsClose gap a b := by
    rw [← closeTo_iff, Bool.not_eq_true]
  rw [List.splitBy_eq_iff]
  simp only [closeTo_iff, hapart]
  exact ⟨fun h => ⟨h.flatten, h.ne_nil, h.close, h.apart⟩,
    fun h => ⟨h.1, h.2.1, h.2.2.1, h.2.2.2⟩⟩

theorem IsJoined.eq (hc : IsJoined run c) (hd : IsJoined run d) : c = d := by
  obtain ⟨first, hfirst, last, hlast, hsource, hstart, hstop⟩ := hc
  obtain ⟨first', hfirst', last', hlast', hsource', hstart', hstop'⟩ := hd
  obtain rfl := Option.mem_unique hfirst hfirst'
  obtain rfl := Option.mem_unique hlast hlast'
  have hstops : c.start + c.duration = d.start + d.duration := hstop.trans hstop'.symm
  obtain ⟨source, start, duration⟩ := c
  obtain ⟨source', start', duration'⟩ := d
  obtain rfl : source = source' := hsource.trans hsource'.symm
  obtain rfl : start = start' := hstart.trans hstart'.symm
  obtain rfl := add_left_cancel hstops
  rfl

/-- The clip that is joined so far stands for the clips that were joined to it. -/
structure StandsFor (gap : Rat) (current : Clip Rat) (run : List (Clip Rat)) : Prop where
  joined : IsJoined run current
  source : ∀ last ∈ run.getLast?, last.source = current.source
  close : run.IsChain (IsClose gap)

theorem standsFor_singleton (gap : Rat) (c : Clip Rat) : StandsFor gap c [c] := by
  refine ⟨⟨c, rfl, c, rfl, rfl, rfl, rfl⟩, ?_, List.isChain_singleton c⟩
  rintro last ⟨⟩
  rfl

/-- Comparing with the clip joined so far is comparing with the last clip of the run. -/
theorem StandsFor.closeTo_iff (h : StandsFor gap current run) {last : Clip Rat}
    (hlast : last ∈ run.getLast?) : closeTo gap current next = true ↔ IsClose gap last next := by
  obtain ⟨_, _, last', hlast', _, _, hstop⟩ := h.joined
  obtain rfl := Option.mem_unique hlast hlast'
  rw [Clip.closeTo_iff, IsClose, IsClose, hstop, h.source last hlast]

theorem StandsFor.concat (h : StandsFor gap current run) (hclose : closeTo gap current next = true) :
    StandsFor gap (current.withStop next.stop) (run ++ [next]) := by
  obtain ⟨first, hfirst, last, hlast, hsource, hstart, _⟩ := h.joined
  have hlink := (h.closeTo_iff hlast).1 hclose
  refine ⟨⟨first, ?_, next, by simp, hsource, hstart, stop_withStop current next.stop⟩, ?_, ?_⟩
  · rw [List.head?_append, Option.mem_def.1 hfirst]
    rfl
  · rw [List.getLast?_concat]
    rintro _ ⟨⟩
    rw [source_withStop, hlink.1, h.source last hlast]
  · rw [List.isChain_append]
    refine ⟨h.close, List.isChain_singleton next, fun a ha b hb => ?_⟩
    obtain rfl := Option.mem_unique ha hlast
    obtain rfl : next = b := Option.some.inj hb
    exact hlink

theorem AreRuns.cons (h : AreRuns gap (next :: clips) runs) (hne : run ≠ [])
    (hclose : run.IsChain (IsClose gap)) (hapart : ¬ IsClose gap (run.getLast hne) next) :
    AreRuns gap (run ++ next :: clips) (run :: runs) := by
  rw [areRuns_iff] at *
  rw [List.splitBy_append_cons, h, List.splitBy_of_isChain hne (hclose.imp fun _ _ => closeTo_iff.2)]
  · rfl
  · intro last hlast
    rw [← List.getLast_of_mem_getLast? hlast, ← Bool.not_eq_true, closeTo_iff]
    exact hapart

/-- Joining goes through the runs, and each of them becomes one clip. -/
theorem exists_runs_joinClose (h : StandsFor gap current run) (clips : List (Clip Rat)) :
    ∃ runs, AreRuns gap (run ++ clips) runs ∧
      List.Forall₂ IsJoined runs (joinClose gap current clips) := by
  have hne (run : List (Clip Rat)) (current : Clip Rat) (h : StandsFor gap current run) :
      run ≠ [] := by
    rintro rfl
    obtain ⟨first, hfirst, _⟩ := h.joined
    cases hfirst
  induction clips generalizing current run with
  | nil =>
    have hrun := List.splitBy_of_isChain (hne run current h)
      (h.close.imp fun _ _ => closeTo_iff.2)
    refine ⟨[run], ?_, .cons h.joined .nil⟩
    rw [areRuns_iff, List.append_nil, hrun]
  | cons next clips ih =>
    rw [joinClose]
    split
    · rename_i hclose
      rw [List.append_cons]
      exact ih (h.concat hclose)
    · rename_i hclose
      obtain ⟨runs, hruns, hjoined⟩ := ih (standsFor_singleton gap next)
      have hlast := List.getLast?_eq_some_getLast (hne run current h)
      rw [h.closeTo_iff hlast] at hclose
      exact ⟨run :: runs, hruns.cons (hne run current h) h.close hclose, .cons h.joined hjoined⟩

theorem isCleaned_of_sanitize (h : sanitize gap clips = .ok cleaned) :
    IsCleaned gap clips cleaned := by
  obtain ⟨first, later, hlong, rfl⟩ := sanitize_eq_ok_iff.1 h
  obtain ⟨runs, hruns, hjoined⟩ := exists_runs_joinClose (standsFor_singleton gap first) later
  refine ⟨arrange clips, runs, isArranged_arrange clips, ?_, hjoined⟩
  rw [List.singleton_append, ← hlong] at hruns
  exact hruns

theorem IsCleaned.eq {cleaned' : List (Clip Rat)} (h : IsCleaned gap clips cleaned)
    (h' : IsCleaned gap clips cleaned') : cleaned = cleaned' := by
  obtain ⟨arranged, runs, harranged, hruns, hjoined⟩ := h
  obtain ⟨arranged', runs', harranged', hruns', hjoined'⟩ := h'
  obtain rfl := harranged.eq harranged'
  obtain rfl := (areRuns_iff.1 hruns).symm.trans (areRuns_iff.1 hruns')
  have hunique : Relator.RightUnique IsJoined := fun _ _ _ => IsJoined.eq
  exact List.right_unique_forall₂' hunique hjoined hjoined'

end Joining

/-- If a clip is longer than the gap then the result is what cleaned clips are, and otherwise
the edit is refused. -/
theorem sanitize_eq_cleaned (gap : Rat) (clips : List (Clip Rat)) :
    ((∃ c ∈ clips, gap < c.duration) → ∃ result, sanitize gap clips = .ok result ∧
      ∀ cleaned, IsCleaned gap clips cleaned ↔ cleaned = result) ∧
    ((∀ c ∈ clips, c.duration ≤ gap) →
      ∃ fault, sanitize gap clips = .error (.invalidEdit fault)) := by
  rcases sanitize_cases gap clips with ⟨hshort, hfault⟩ | ⟨hlong, result, hresult, _⟩
  · refine ⟨?_, fun _ => hfault⟩
    rintro ⟨c, hc, hless⟩
    exact absurd hless (of_decide_eq_false (hshort c hc))
  · constructor
    · intro _
      have hcleaned : IsCleaned gap clips result := isCleaned_of_sanitize hresult
      refine ⟨result, hresult, fun cleaned => ⟨fun h => h.eq hcleaned, ?_⟩⟩
      rintro rfl
      exact hcleaned
    · intro hshort
      obtain ⟨c, hc, hless⟩ := hlong
      exact absurd (of_decide_eq_true hless) (hshort c hc).not_gt

/-- Three clips become one, although the first and the last are not close; a cut as long as
the gap stays, and so does a later clip behind one that is dropped. -/
theorem sanitize_eq_cleaned_chain :
    let clips : List (Clip Rat) := [⟨0, 8, 3⟩, ⟨0, 13, 3⟩, ⟨0, 0, 3⟩, ⟨0, 17, 2⟩, ⟨0, 4, 3⟩]
    (∃ c ∈ clips, 2 < c.duration) ∧ IsCleaned 2 clips [⟨0, 0, 11⟩, ⟨0, 13, 3⟩] := by
  intro clips
  have hlong : ∃ c ∈ clips, 2 < c.duration := ⟨⟨0, 8, 3⟩, List.mem_cons_self, by decide⟩
  obtain ⟨result, hresult, hcleaned⟩ := (sanitize_eq_cleaned 2 clips).1 hlong
  have harranged : arrange clips = [⟨0, 0, 3⟩, ⟨0, 4, 3⟩, ⟨0, 8, 3⟩, ⟨0, 13, 3⟩, ⟨0, 17, 2⟩] := by
    have hsorted := (isArranged_arrange clips).sorted (by decide)
    have hmerge : (arrange clips).Perm clips := List.mergeSort_perm _ _
    have hsame : clips.Perm [⟨0, 0, 3⟩, ⟨0, 4, 3⟩, ⟨0, 8, 3⟩, ⟨0, 13, 3⟩, ⟨0, 17, 2⟩] := by decide
    have hstarts : ∀ a ∈ clips, ∀ b ∈ clips, a.start ≤ b.start → b.start ≤ a.start → a = b := by
      decide
    exact List.Perm.eq_of_pairwise
      (fun a b ha hb => hstarts a (hmerge.mem_iff.1 ha) b (hsame.mem_iff.2 hb))
      hsorted.ordered (by decide) (hmerge.trans hsame)
  have hcomputed : (sanitize 2 clips).toOption = some [⟨0, 0, 11⟩, ⟨0, 13, 3⟩] := by
    rw [sanitize, sanitize?, longEnough, harranged]
    decide +kernel
  rw [hresult] at hcomputed
  exact ⟨hlong, (hcleaned _).2 (Option.some.inj hcomputed).symm⟩

end Montage.Clip
