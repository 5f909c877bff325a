import Montage.Engine.Edit
import Montage.Proofs.Clip.OneSource

/-!
# How long the clips of an edit are

A clip is cut out of its source with a fade at each end, so an edit can use a clip if it is
longer than its fades. The clips that are too short are dropped, but what is joined to one clip
can be shorter than its parts: it runs from the start of the first to the end of the last one.
So a run makes a clip that can be used exactly if it outlasts the gap
(`durations_of_sanitize`).

It does if its clips start one after the other, as those of one source do after sorting. With
several sources the given order stands, and a clip that starts before the one in front of it
counts as close. The end of the joined clip may then lie in front of its start.
-/

namespace Montage.Clip

/-- Longer than the fades, and so the fade-out starts behind the start. -/
structure IsUsable (gap : Rat) (c : Clip Rat) : Prop where
  long : gap < c.duration
  duration_pos : 0 < c.duration
  fadeOutStart_pos : 0 < c.fadeOutStart gap

/-- The last clip of a run ends more than the gap behind the start of the first one. -/
def Outlasts (gap : Rat) (run : List (Clip Rat)) : Prop :=
  ∃ first ∈ run.head?, ∃ last ∈ run.getLast?, first.start + gap < last.stop

def StartInOrder (clips : List (Clip Rat)) : Prop :=
  clips.IsChain fun a b => a.source = b.source → a.start ≤ b.start

variable {gap : Rat} {clips arranged cleaned run : List (Clip Rat)}
  {runs : List (List (Clip Rat))} {c : Clip Rat}

theorem fadeOutStart_eq_max (c : Clip Rat) (fade : Rat) :
    c.fadeOutStart fade = max (c.duration - fade) 0 := by
  have hless : ClipTime.less 0 (c.duration - fade) = decide (0 < c.duration - fade) := rfl
  rw [fadeOutStart, hless, max_comm, max_def_lt]
  simp only [decide_eq_true_eq]

theorem isUsable_iff (hgap : 0 ≤ gap) : IsUsable gap c ↔ gap < c.duration := by
  refine ⟨IsUsable.long, fun hlong => ⟨hlong, hgap.trans_lt hlong, ?_⟩⟩
  rw [fadeOutStart_eq_max]
  exact lt_max_of_lt_left (sub_pos.2 hlong)

section Runs

theorem IsJoined.long_iff (h : IsJoined run c) : gap < c.duration ↔ Outlasts gap run := by
  obtain ⟨first, hfirst, last, hlast, _, hstart, hstop⟩ := h
  have hduration : gap < c.duration ↔ first.start + gap < last.stop := by
    rw [← hstart, ← hstop]
    exact (add_lt_add_iff_left c.start).symm
  rw [hduration]
  refine ⟨fun hless => ⟨first, hfirst, last, hlast, hless⟩, ?_⟩
  rintro ⟨first', hfirst', last', hlast', hless⟩
  obtain rfl := Option.mem_unique hfirst hfirst'
  obtain rfl := Option.mem_unique hlast hlast'
  exact hless

theorem start_le_getLast (hclose : (c :: clips).IsChain (IsClose gap))
    (horder : StartInOrder (c :: clips)) {last : Clip Rat} (hlast : last ∈ (c :: clips).getLast?) :
    c.start ≤ last.start := by
  induction clips generalizing c with
  | nil =>
    obtain rfl := Option.some.inj hlast
    exact le_rfl
  | cons next clips ih =>
    obtain ⟨hlink, hclose⟩ := List.isChain_cons_cons.1 hclose
    obtain ⟨hstep, horder⟩ := List.isChain_cons_cons.1 horder
    rw [List.getLast?_cons_cons] at hlast
    exact (hstep hlink.1.symm).trans (ih hclose horder hlast)

theorem outlasts_of_startInOrder (hne : run ≠ []) (hclose : run.IsChain (IsClose gap))
    (horder : StartInOrder run) (hlong : ∀ c ∈ run, gap < c.duration) : Outlasts gap run := by
  obtain ⟨first, later, rfl⟩ := List.exists_cons_of_ne_nil hne
  have hlast := List.getLast?_eq_some_getLast hne
  refine ⟨first, rfl, _, hlast, ?_⟩
  exact add_lt_add_of_le_of_lt (start_le_getLast hclose horder hlast)
    (hlong _ (List.getLast_mem hne))

/-- Where the clips of one source start in order, so do those of each run. -/
theorem AreRuns.outlasts (h : AreRuns gap (arranged.filter (gap < ·.duration)) runs)
    (horder : StartInOrder (arranged.filter (gap < ·.duration))) :
    ∀ run ∈ runs, Outlasts gap run := by
  intro run hrun
  have hne : run ≠ [] := fun hnil => h.ne_nil (hnil ▸ hrun)
  have hinside : StartInOrder run := by
    rw [StartInOrder, h.flatten, List.isChain_flatten h.ne_nil] at horder
    exact horder.1 run hrun
  refine outlasts_of_startInOrder hne (h.close run hrun) hinside fun c hc => ?_
  have hkept : c ∈ arranged.filter (gap < ·.duration) :=
    h.flatten ▸ List.mem_flatten_of_mem hrun hc
  exact of_decide_eq_true (List.mem_filter.1 hkept).2

end Runs

theorem IsArranged.startInOrder (h : IsArranged clips arranged)
    (hsource : ∀ a ∈ clips, ∀ b ∈ clips, a.source = b.source) :
    StartInOrder (arranged.filter (gap < ·.duration)) := by
  have hordered := (h.sorted hsource).ordered.sublist (List.filter_sublist (p := (gap < ·.duration)))
  exact hordered.isChain.imp fun _ _ hle _ => hle

/-- A run makes a clip that can be used if it outlasts the gap, and otherwise one that is no
longer than its fades. All of them can be used if neighbours from one source start one after
the other, and so if there is one source. -/
theorem durations_of_sanitize (hgap : 0 ≤ gap) (harranged : IsArranged clips arranged)
    (hruns : AreRuns gap (arranged.filter (gap < ·.duration)) runs)
    (h : sanitize gap clips = .ok cleaned) :
    List.Forall₂ (fun run r => (Outlasts gap run → IsUsable gap r) ∧
      (¬ Outlasts gap run → r.duration ≤ gap ∧ r.fadeOutStart gap = 0)) runs cleaned ∧
    (StartInOrder (arranged.filter (gap < ·.duration)) → ∀ r ∈ cleaned, IsUsable gap r) ∧
    ((∀ a ∈ clips, ∀ b ∈ clips, a.source = b.source) → ∀ r ∈ cleaned, IsUsable gap r) := by
  obtain ⟨arranged', runs', harranged', hruns', hjoined⟩ := isCleaned_of_sanitize h
  obtain rfl := harranged.eq harranged'
  obtain rfl := (areRuns_iff.1 hruns).symm.trans (areRuns_iff.1 hruns')
  have husable {run : List (Clip Rat)} {r : Clip Rat} (hr : IsJoined run r) :
      IsUsable gap r ↔ Outlasts gap run := (isUsable_iff hgap).trans hr.long_iff
  have hordered (horder : StartInOrder (arranged.filter (gap < ·.duration))) :
      ∀ r ∈ cleaned, IsUsable gap r := by
    have hall := (List.forall₂_and_left runs cleaned).2 ⟨hruns.outlasts horder, hjoined⟩
    have hflip : List.Forall₂ (fun r run => IsUsable gap r ∧ IsJoined run r) cleaned runs :=
      hall.flip.imp fun r run hr => ⟨(husable hr.2).2 hr.1, hr.2⟩
    exact ((List.forall₂_and_left cleaned runs).1 hflip).1
  refine ⟨hjoined.imp fun run r hr => ⟨(husable hr).2, fun hnot => ?_⟩, hordered,
    fun hsource => hordered (harranged.startInOrder hsource)⟩
  have hshort : r.duration ≤ gap := not_lt.1 fun hlong => hnot (hr.long_iff.1 hlong)
  refine ⟨hshort, ?_⟩
  rw [fadeOutStart_eq_max]
  exact max_eq_right (sub_nonpos.2 hshort)

/-- Between two clips of the second source, two clips of the first one are joined. -/
theorem durations_of_sanitize_in_order :
    let clips : List (Clip Rat) := [⟨1, 30, 5⟩, ⟨0, 0, 3⟩, ⟨0, 4, 3⟩, ⟨1, 0, 5⟩]
    let cleaned : List (Clip Rat) := [⟨1, 30, 5⟩, ⟨0, 0, 7⟩, ⟨1, 0, 5⟩]
    (0 : Rat) ≤ 2 ∧ IsArranged clips clips ∧
      AreRuns 2 (clips.filter (2 < ·.duration))
        [[⟨1, 30, 5⟩], [⟨0, 0, 3⟩, ⟨0, 4, 3⟩], [⟨1, 0, 5⟩]] ∧
      sanitize 2 clips = .ok cleaned ∧ ∀ r ∈ cleaned, IsUsable 2 r := by
  intro clips cleaned
  have hgiven : arrange clips = clips := rfl
  have harranged : IsArranged clips clips := hgiven ▸ isArranged_arrange clips
  have hruns : AreRuns 2 (clips.filter (2 < ·.duration))
      [[⟨1, 30, 5⟩], [⟨0, 0, 3⟩, ⟨0, 4, 3⟩], [⟨1, 0, 5⟩]] :=
    areRuns_iff.2 (by decide +kernel)
  have hlong : longEnough 2 clips = clips := by
    rw [longEnough, hgiven]
    decide
  have hcleaned : sanitize 2 clips = .ok cleaned :=
    sanitize_eq_ok_iff.2 ⟨_, _, hlong, by decide +kernel⟩
  refine ⟨by decide, harranged, hruns, hcleaned, ?_⟩
  refine (durations_of_sanitize (by decide) harranged hruns hcleaned).2.1 ?_
  have hall : clips.filter (2 < ·.duration) = clips := by decide
  rw [hall, StartInOrder]
  decide

/-- The second clip starts in front of the first one, and it is joined to it: what is left ends
before it starts, also in the clause that an encoder is given. -/
theorem not_isUsable_of_earlier_clip :
    let clips : List (Clip Rat) := [⟨0, 30, 5⟩, ⟨0, 10, 5⟩, ⟨1, 10, 5⟩]
    let request : EditRequest := {
      inputs := [⟨"/in/a.mp4"⟩, ⟨"/in/b.mp4"⟩]
      edits := some [0, 30000, 5000, 0, 10000, 5000, 1, 10000, 5000]
      audio := false }
    ((0 : Rat) ≤ 2 ∧ (∀ c ∈ clips, 0 ≤ c.start) ∧ ∃ cleaned, sanitize 2 clips = .ok cleaned ∧
      ∃ r ∈ cleaned, ¬ 2 < r.duration ∧ ¬ 0 < r.duration ∧ ¬ 0 < r.fadeOutStart 2) ∧
    ((request.cut 2000).toOption.map fun cut => cut.clauses.map Clause.text) = some
      ["[0:v]trim=30.00:duration=-15.00,setpts=PTS-STARTPTS," ++
          "fade=t=in:st=0:d=2.00,fade=t=out:st=0.00:d=2.00[v0]",
        "[1:v]trim=10.00:duration=5.00,setpts=PTS-STARTPTS," ++
          "fade=t=in:st=0:d=2.00,fade=t=out:st=3.00:d=2.00[v1]",
        "[v0][v1]concat=n=2:unsafe=1[ov]"] := by
  intro clips request
  have hlong : longEnough 2 clips = clips := by
    have hgiven : arrange clips = clips := rfl
    rw [longEnough, hgiven]
    decide
  have hcleaned : sanitize 2 clips = .ok [⟨0, 30, -15⟩, ⟨1, 10, 5⟩] :=
    sanitize_eq_ok_iff.2 ⟨_, _, hlong, by decide +kernel⟩
  refine ⟨⟨by decide, by decide, _, hcleaned, _, List.mem_cons_self, ?_⟩, ?_⟩
  · decide +kernel
  · decide +kernel

end Montage.Clip
