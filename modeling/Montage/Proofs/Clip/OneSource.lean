import Mathlib.Order.Interval.Set.LinearOrder
import Mathlib.Tactic.Linarith
import Montage.Proofs.Clip.Runs

/-!
# Clips of one source

Clips of one source are sorted before they are joined, and joining keeps them sorted: a joined
clip starts with its first part, and it is no shorter than its last part, since that one starts
later. So what is left is again footage that could have been given, with no two neighbours that
are close, and cleaning it once more changes nothing (`sanitize_eq_self_of_sanitize`).

A joined clip ends where its last part ends, also if an earlier part ends later. So an instant
stays exactly if the last clip that has started by then is still running, or the next one is
close to it (`covers_iff_of_sanitize`), and a clip is cut short where one that starts later
lies inside it.
-/

namespace Montage.Clip

/-- Sorted clips of one source that are longer than the gap. -/
structure IsFootage (gap : Rat) (clips : List (Clip Rat)) : Prop where
  source : ∀ a ∈ clips, ∀ b ∈ clips, a.source = b.source
  sorted : clips.Pairwise fun a b => a.start ≤ b.start
  long : ∀ c ∈ clips, gap < c.duration

variable {gap t : Rat} {clips sorted cleaned : List (Clip Rat)} {current next last : Clip Rat}

theorem arrange_eq_of_isSorted (hsource : ∀ a ∈ clips, ∀ b ∈ clips, a.source = b.source)
    (hsorted : IsSorted clips sorted) : arrange clips = sorted :=
  ((isArranged_arrange clips).sorted hsource).eq hsorted

theorem isFootage_longEnough (hsource : ∀ a ∈ clips, ∀ b ∈ clips, a.source = b.source)
    (gap : Rat) : IsFootage gap (longEnough gap clips) where
  source a ha b hb := hsource a (mem_longEnough_iff.1 ha).1 b (mem_longEnough_iff.1 hb).1
  sorted := ((isArranged_arrange clips).sorted hsource).ordered.sublist List.filter_sublist
  long _ hc := of_decide_eq_true (mem_longEnough_iff.1 hc).2

namespace IsFootage

theorem tail (h : IsFootage gap (current :: clips)) : IsFootage gap clips where
  source a ha b hb := h.source a (List.mem_cons_of_mem _ ha) b (List.mem_cons_of_mem _ hb)
  sorted := h.sorted.of_cons
  long c hc := h.long c (List.mem_cons_of_mem _ hc)

theorem withStop (h : IsFootage gap (current :: next :: clips)) :
    IsFootage gap (current.withStop next.stop :: clips) := by
  have hskip {c : Clip Rat} (hc : c ∈ clips) : c ∈ current :: next :: clips :=
    List.mem_cons_of_mem _ (List.mem_cons_of_mem _ hc)
  have hsource {c : Clip Rat} (hc : c ∈ current.withStop next.stop :: clips) :
      c.source = current.source := by
    rcases List.mem_cons.1 hc with rfl | hc
    · rfl
    · exact h.source c (hskip hc) current List.mem_cons_self
  refine ⟨fun a ha b hb => (hsource ha).trans (hsource hb).symm, ?_, fun c hc => ?_⟩
  · refine List.pairwise_cons.2 ⟨fun c hc => ?_, h.tail.tail.sorted⟩
    exact List.rel_of_pairwise_cons h.sorted (List.mem_cons_of_mem _ hc)
  · rcases List.mem_cons.1 hc with rfl | hc
    · have hstart : current.start ≤ next.start :=
        List.rel_of_pairwise_cons h.sorted List.mem_cons_self
      calc gap < next.duration := h.tail.long next List.mem_cons_self
        _ ≤ next.start + next.duration - current.start := by linarith
    · exact h.long c (hskip hc)

theorem joinClose (h : IsFootage gap (current :: clips)) :
    IsFootage gap (Clip.joinClose gap current clips) := by
  induction clips generalizing current with
  | nil => exact h
  | cons next clips ih =>
    rw [Clip.joinClose]
    split
    · exact ih h.withStop
    · have hfrom {c : Clip Rat} (hc : c ∈ Clip.joinClose gap next clips) :
          ∃ d ∈ next :: clips, d.origin = c.origin := by
        have horigin := (sublist_joinClose gap next clips).subset (List.mem_map_of_mem hc)
        exact List.mem_map.1 horigin
      have hsource {c : Clip Rat} (hc : c ∈ current :: Clip.joinClose gap next clips) :
          c.source = current.source := by
        rcases List.mem_cons.1 hc with rfl | hc
        · rfl
        · obtain ⟨d, hd, hdc⟩ := hfrom hc
          rw [← (Prod.mk.inj hdc).1]
          exact h.source d (List.mem_cons_of_mem _ hd) current List.mem_cons_self
      refine ⟨fun a ha b hb => (hsource ha).trans (hsource hb).symm, ?_, fun c hc => ?_⟩
      · refine List.pairwise_cons.2 ⟨fun c hc => ?_, (ih h.tail).sorted⟩
        obtain ⟨d, hd, hdc⟩ := hfrom hc
        rw [← (Prod.mk.inj hdc).2]
        exact List.rel_of_pairwise_cons h.sorted hd
      · rcases List.mem_cons.1 hc with rfl | hc
        · exact h.long c List.mem_cons_self
        · exact (ih h.tail).long c hc

end IsFootage

theorem isFootage_of_sanitize (hsource : ∀ a ∈ clips, ∀ b ∈ clips, a.source = b.source)
    (h : sanitize gap clips = .ok cleaned) : IsFootage gap cleaned := by
  obtain ⟨first, later, hlong, rfl⟩ := sanitize_eq_ok_iff.1 h
  have hkept := isFootage_longEnough hsource gap
  rw [hlong] at hkept
  exact hkept.joinClose

section Again

/-- The clips of one source that stay as they are: footage in which no neighbours are close. -/
theorem sanitize_eq_self_iff (hsource : ∀ a ∈ clips, ∀ b ∈ clips, a.source = b.source) :
    sanitize gap clips = .ok clips ↔ clips ≠ [] ∧ IsFootage gap clips ∧
      clips.IsChain fun a b => closeTo gap a b = false := by
  constructor
  · intro h
    exact ⟨(of_sanitize_eq_ok h).1, isFootage_of_sanitize hsource h, isChain_of_sanitize h⟩
  · rintro ⟨hne, hfootage, hapart⟩
    obtain ⟨first, later, rfl⟩ := List.exists_cons_of_ne_nil hne
    refine sanitize_eq_ok_iff.2 ⟨first, later, ?_, joinClose_eq_self hapart⟩
    rw [longEnough, arrange_eq_self (hfootage.sorted.imp fun hle => decide_eq_true hle),
      List.filter_eq_self]
    exact fun c hc => decide_eq_true (hfootage.long c hc)

/-- Cleaning what was cleaned changes nothing. -/
theorem sanitize_eq_self_of_sanitize
    (hsource : ∀ a ∈ clips, ∀ b ∈ clips, a.source = b.source)
    (h : sanitize gap clips = .ok cleaned) : sanitize gap cleaned = .ok cleaned := by
  have hfootage := isFootage_of_sanitize hsource h
  exact (sanitize_eq_self_iff hfootage.source).2
    ⟨(of_sanitize_eq_ok h).1, hfootage, isChain_of_sanitize h⟩

/-- Two clips are joined, one is dropped, and then nothing is left to do. -/
theorem sanitize_eq_self_of_sanitize_joined :
    let clips : List (Clip Rat) := [⟨0, 0, 3⟩, ⟨0, 4, 3⟩, ⟨0, 13, 3⟩, ⟨0, 17, 2⟩]
    let cleaned : List (Clip Rat) := [⟨0, 0, 7⟩, ⟨0, 13, 3⟩]
    (∀ a ∈ clips, ∀ b ∈ clips, a.source = b.source) ∧ sanitize 2 clips = .ok cleaned ∧
      sanitize 2 cleaned = .ok cleaned := by
  intro clips cleaned
  have hsource : ∀ a ∈ clips, ∀ b ∈ clips, a.source = b.source := by decide
  have hlong : longEnough 2 clips = [⟨0, 0, 3⟩, ⟨0, 4, 3⟩, ⟨0, 13, 3⟩] := by
    rw [longEnough, arrange_eq_self (by decide)]
    decide
  have hcleaned : sanitize 2 clips = .ok cleaned :=
    sanitize_eq_ok_iff.2 ⟨_, _, hlong, by decide +kernel⟩
  exact ⟨hsource, hcleaned, sanitize_eq_self_of_sanitize hsource hcleaned⟩

end Again

section Covering

def Covers (c : Clip Rat) (t : Rat) : Prop := c.start ≤ t ∧ t < c.stop

/-- The last clip that has started at an instant is still running, or one behind it is close. -/
def Spans (gap : Rat) (clips : List (Clip Rat)) (t : Rat) : Prop :=
  ∃ before b after, clips = before ++ b :: after ∧ b.start ≤ t ∧ (∀ n ∈ after, t < n.start) ∧
    (t < b.stop ∨ ∃ n ∈ after, n.start - b.stop < gap)

theorem not_spans_nil : ¬ Spans gap [] t := by
  rintro ⟨before, b, after, hnil, _⟩
  simp at hnil

theorem spans_cons_iff {b : Clip Rat} :
    Spans gap (b :: clips) t ↔
      (b.start ≤ t ∧ (∀ n ∈ clips, t < n.start) ∧
        (t < b.stop ∨ ∃ n ∈ clips, n.start - b.stop < gap)) ∨ Spans gap clips t := by
  constructor
  · rintro ⟨before, d, after, hclips, hspans⟩
    cases before with
    | nil =>
      obtain ⟨rfl, rfl⟩ := List.cons.inj hclips
      exact Or.inl hspans
    | cons a before =>
      obtain ⟨rfl, rfl⟩ := List.cons.inj hclips
      exact Or.inr ⟨before, d, after, rfl, hspans⟩
  · rintro (hspans | ⟨before, d, after, rfl, hspans⟩)
    · exact ⟨[], b, clips, rfl, hspans⟩
    · exact ⟨b :: before, d, after, rfl, hspans⟩

theorem IsFootage.start_lt_stop (hgap : 0 ≤ gap) (h : IsFootage gap clips) {c : Clip Rat}
    (hc : c ∈ clips) : c.start < c.stop :=
  lt_add_of_pos_right c.start (hgap.trans_lt (h.long c hc))

theorem covers_iff_of_stop (hstart : current.start ≤ last.start) (hstop : current.stop = last.stop)
    (hrunning : last.start < last.stop) :
    current.Covers t ↔ current.start ≤ t ∧ t < last.start ∨ last.Covers t := by
  rw [Covers, Covers, hstop, ← Set.mem_Ico, ← Set.Ico_union_Ico_eq_Ico hstart hrunning.le]
  rfl

section Cons

variable (h : IsFootage gap (last :: next :: clips))
include h

theorem IsFootage.forall_lt_start_iff :
    (∀ n ∈ next :: clips, t < n.start) ↔ t < next.start := by
  constructor
  · intro hall
    exact hall next List.mem_cons_self
  · intro hlt n hn
    exact hlt.trans_le (start_le_of_mem h.tail.sorted hn)

theorem IsFootage.spans_cons_of_close (hclose : next.start - last.stop < gap) :
    Spans gap (last :: next :: clips) t ↔
      last.start ≤ t ∧ t < next.start ∨ Spans gap (next :: clips) t := by
  have hnear : ∃ n ∈ next :: clips, n.start - last.stop < gap :=
    ⟨next, List.mem_cons_self, hclose⟩
  rw [spans_cons_iff, h.forall_lt_start_iff]
  simp only [hnear, or_true, and_true]

theorem IsFootage.spans_cons_of_apart (hgap : 0 ≤ gap) (hcut : gap ≤ next.start - last.stop) :
    Spans gap (last :: next :: clips) t ↔ last.Covers t ∨ Spans gap (next :: clips) t := by
  have hfar : ¬ ∃ n ∈ next :: clips, n.start - last.stop < gap := by
    rintro ⟨n, hn, hnear⟩
    linarith [start_le_of_mem h.tail.sorted hn]
  have hcovers : last.start ≤ t ∧ t < next.start ∧ t < last.stop ↔ last.Covers t := by
    refine and_congr_right fun _ => and_iff_right_of_imp fun huntil => ?_
    linarith
  rw [spans_cons_iff, h.forall_lt_start_iff]
  simp only [hfar, or_false, hcovers]

end Cons

/-- The clip that is joined so far runs from its own start to the end of the last clip that was
joined to it. -/
theorem IsFootage.covers_joinClose_iff (hgap : 0 ≤ gap) (h : IsFootage gap (last :: clips))
    (hsource : current.source = last.source) (hstart : current.start ≤ last.start)
    (hstop : current.stop = last.stop) :
    (∃ r ∈ Clip.joinClose gap current clips, r.Covers t) ↔
      current.start ≤ t ∧ t < last.start ∨ Spans gap (last :: clips) t := by
  have hrunning := h.start_lt_stop hgap List.mem_cons_self
  induction clips generalizing current last with
  | nil =>
    rw [spans_cons_iff]
    simpa [not_spans_nil, Covers] using covers_iff_of_stop hstart hstop hrunning
  | cons next clips ih =>
    have hnext : last.start ≤ next.start :=
      List.rel_of_pairwise_cons h.sorted List.mem_cons_self
    have hnextSource : last.source = next.source :=
      h.source last List.mem_cons_self next (List.mem_cons_of_mem _ List.mem_cons_self)
    have hrest := h.tail.start_lt_stop hgap List.mem_cons_self
    have hlink : closeTo gap current next = true ↔ next.start - last.stop < gap := by
      rw [closeTo_iff, IsClose, hstop]
      exact and_iff_right (hsource.trans hnextSource).symm
    rw [Clip.joinClose]
    split
    · rename_i hclose
      have hjoined : (∃ r ∈ Clip.joinClose gap (current.withStop next.stop) clips, r.Covers t) ↔ _ :=
        ih h.tail (hsource.trans hnextSource) (hstart.trans hnext)
          (stop_withStop current next.stop) hrest
      have hsplit : current.start ≤ t ∧ t < next.start ↔
          current.start ≤ t ∧ t < last.start ∨ last.start ≤ t ∧ t < next.start := by
        rw [← Set.mem_Ico, ← Set.Ico_union_Ico_eq_Ico hstart hnext]
        rfl
      rw [hjoined, start_withStop, hsplit, h.spans_cons_of_close (hlink.1 hclose), or_assoc]
    · rename_i hclose
      have hapart : (∃ r ∈ Clip.joinClose gap next clips, r.Covers t) ↔ _ :=
        ih h.tail rfl le_rfl rfl hrest
      have hempty : ¬ (next.start ≤ t ∧ t < next.start) := fun hboth => hboth.1.not_gt hboth.2
      have hcut : gap ≤ next.start - last.stop := not_lt.1 fun hlt => hclose (hlink.2 hlt)
      rw [List.exists_mem_cons_iff, covers_iff_of_stop hstart hstop hrunning, hapart,
        h.spans_cons_of_apart hgap hcut, or_assoc]
      simp only [hempty, false_or]

theorem exists_last_started {c : Clip Rat} (hc : c ∈ clips) (hfrom : c.start ≤ t) :
    ∃ before b after, clips = before ++ b :: after ∧ b.start ≤ t ∧ ∀ n ∈ after, t < n.start := by
  induction clips generalizing c with
  | nil => exact absurd hc List.not_mem_nil
  | cons a clips ih =>
    by_cases hlater : ∃ d ∈ clips, d.start ≤ t
    · obtain ⟨d, hd, hstarted⟩ := hlater
      obtain ⟨before, b, after, rfl, hb⟩ := ih hd hstarted
      exact ⟨a :: before, b, after, rfl, hb⟩
    · push Not at hlater
      rcases List.mem_cons.1 hc with rfl | hmem
      · exact ⟨[], c, clips, rfl, hfrom, hlater⟩
      · exact absurd hfrom (hlater c hmem).not_ge

/-- An element that does not stand behind another one is that one, or the other stands behind
it. -/
theorem eq_or_mem_of_append_eq {α : Type} {xs ys xs' ys' : List α} {b m : α}
    (h : xs ++ b :: ys = xs' ++ m :: ys') (hb : b ∉ ys') : b = m ∧ ys = ys' ∨ m ∈ ys := by
  rcases List.append_eq_append_iff.1 h with ⟨between, rfl, hrest⟩ | ⟨between, rfl, hrest⟩
  · cases between with
    | nil => exact Or.inl (List.cons.inj hrest)
    | cons d between =>
      obtain ⟨rfl, rfl⟩ := List.cons.inj hrest
      exact Or.inr (List.mem_append_right _ List.mem_cons_self)
  · cases between with
    | nil =>
      obtain ⟨rfl, rfl⟩ := List.cons.inj hrest
      exact Or.inl ⟨rfl, rfl⟩
    | cons d between =>
      obtain ⟨rfl, rfl⟩ := List.cons.inj hrest
      exact absurd (List.mem_append_right _ List.mem_cons_self) hb

/-- Nothing is lost exactly if each clip that ends before an earlier one does is followed by
a clip that is close to it. -/
theorem IsFootage.spans_iff (hgap : 0 ≤ gap) (h : IsFootage gap clips) :
    (∀ c ∈ clips, ∀ t, c.Covers t → Spans gap clips t) ↔
      ∀ before b after, clips = before ++ b :: after → ∀ a ∈ before, b.stop < a.stop →
        ∃ n ∈ after, n.start - b.stop < gap ∨ n.start ≤ b.stop := by
  constructor
  · rintro hspans before b after rfl a ha hinside
    have hb : b ∈ before ++ b :: after := List.mem_append_right _ List.mem_cons_self
    have hrunning : b.start < b.stop := h.start_lt_stop hgap hb
    have hstart : a.start ≤ b.start :=
      (List.pairwise_append.1 h.sorted).2.2 a ha b List.mem_cons_self
    -- The first instant behind `b` at which only an earlier clip need be running.
    obtain ⟨before', m, after', hsplit, hm, hafter, hkept⟩ :=
      hspans a (List.mem_append_left _ ha) b.stop ⟨hstart.trans hrunning.le, hinside⟩
    have hnot : b ∉ after' := fun hmem => (hafter b hmem).not_ge hrunning.le
    rcases eq_or_mem_of_append_eq hsplit hnot with ⟨rfl, rfl⟩ | hmem
    · obtain ⟨n, hn, hnear⟩ := hkept.resolve_left (lt_irrefl _)
      exact ⟨n, hn, Or.inl hnear⟩
    · exact ⟨m, hmem, Or.inr hm⟩
  · rintro hfollowed c hc t ⟨hfrom, huntil⟩
    obtain ⟨before, b, after, rfl, hb, hafter⟩ := exists_last_started hc hfrom
    refine ⟨before, b, after, rfl, hb, hafter, ?_⟩
    rcases lt_or_ge t b.stop with hlt | hge
    · exact Or.inl hlt
    · rcases List.mem_append.1 hc with hbefore | hmem
      · obtain ⟨n, hn, hnear | hpast⟩ :=
          hfollowed before b after rfl c hbefore (hge.trans_lt huntil)
        · exact Or.inr ⟨n, hn, hnear⟩
        · exact absurd (hpast.trans hge) (hafter n hn).not_ge
      · rcases List.mem_cons.1 hmem with rfl | hmem
        · exact absurd huntil hge.not_gt
        · exact absurd hfrom (hafter c hmem).not_ge

/-- What is left covers an instant if and only if the long clips span it. So a long clip is
covered to its end, unless a later one lies inside it and nothing follows that is close. -/
theorem covers_iff_of_sanitize (hsource : ∀ a ∈ clips, ∀ b ∈ clips, a.source = b.source)
    (hgap : 0 ≤ gap) (hsorted : IsSorted clips sorted) (h : sanitize gap clips = .ok cleaned) :
    (∀ t, (∃ r ∈ cleaned, r.Covers t) ↔ Spans gap (sorted.filter (gap < ·.duration)) t) ∧
    ((∀ c ∈ clips, gap < c.duration → ∀ t, c.Covers t → ∃ r ∈ cleaned, r.Covers t) ↔
      ∀ before b after, sorted.filter (gap < ·.duration) = before ++ b :: after →
        ∀ a ∈ before, b.stop < a.stop → ∃ n ∈ after, n.start - b.stop < gap ∨ n.start ≤ b.stop) := by
  obtain ⟨first, later, hlong, rfl⟩ := sanitize_eq_ok_iff.1 h
  have hfootage := isFootage_longEnough hsource gap
  have hkept : sorted.filter (gap < ·.duration) = longEnough gap clips := by
    rw [longEnough, arrange_eq_of_isSorted hsource hsorted]
    rfl
  have hmem (c : Clip Rat) : c ∈ longEnough gap clips ↔ c ∈ clips ∧ gap < c.duration := by
    rw [mem_longEnough_iff]
    exact and_congr_right fun _ => decide_eq_true_iff
  have hcovers (t : Rat) : (∃ r ∈ Clip.joinClose gap first later, r.Covers t) ↔
      Spans gap (longEnough gap clips) t := by
    have hjoined := (hlong ▸ hfootage).covers_joinClose_iff hgap rfl le_rfl rfl (t := t)
    have hempty : ¬ (first.start ≤ t ∧ t < first.start) := fun hboth => hboth.1.not_gt hboth.2
    rw [hlong]
    simpa only [hempty, false_or] using hjoined
  rw [hkept]
  refine ⟨hcovers, ?_⟩
  rw [← hfootage.spans_iff hgap]
  simp only [hmem, hcovers, and_imp]

/-- The second clip lies inside the first one, and the third one is close to it. -/
theorem covers_iff_of_sanitize_followed :
    let clips : List (Clip Rat) := [⟨0, 0, 10⟩, ⟨0, 2, 3⟩, ⟨0, 6, 5⟩]
    let cleaned : List (Clip Rat) := [⟨0, 0, 11⟩]
    (∀ a ∈ clips, ∀ b ∈ clips, a.source = b.source) ∧ (0 : Rat) ≤ 2 ∧ IsSorted clips clips ∧
      sanitize 2 clips = .ok cleaned ∧
      ∀ c ∈ clips, 2 < c.duration → ∀ t, c.Covers t → ∃ r ∈ cleaned, r.Covers t := by
  intro clips cleaned
  have hsource : ∀ a ∈ clips, ∀ b ∈ clips, a.source = b.source := by decide
  have hsorted : IsSorted clips clips := ⟨by decide, fun _ => rfl⟩
  have hlong : longEnough 2 clips = clips := by
    rw [longEnough, arrange_eq_self (by decide)]
    decide
  have hcleaned : sanitize 2 clips = .ok cleaned :=
    sanitize_eq_ok_iff.2 ⟨_, _, hlong, by decide +kernel⟩
  refine ⟨hsource, by decide, hsorted, hcleaned, ?_⟩
  refine (covers_iff_of_sanitize hsource (by decide) hsorted hcleaned).2.2 ?_
  have hall : clips.filter (2 < ·.duration) = clips := by decide
  intro before b after hclips a ha hinside
  rw [hall] at hclips
  rcases before with _ | ⟨x, _ | ⟨y, _ | ⟨z, before⟩⟩⟩
  · cases ha
  · simp only [clips, List.cons_append, List.nil_append, List.cons.injEq] at hclips
    obtain ⟨rfl, rfl, rfl⟩ := hclips
    exact ⟨⟨0, 6, 5⟩, List.mem_cons_self, Or.inl (by decide +kernel)⟩
  · simp only [clips, List.cons_append, List.nil_append, List.cons.injEq] at hclips
    obtain ⟨rfl, rfl, rfl, rfl⟩ := hclips
    simp only [List.mem_cons, List.not_mem_nil, or_false] at ha
    rcases ha with rfl | rfl
    · exact absurd hinside (by decide +kernel)
    · exact absurd hinside (by decide +kernel)
  · have hlength := congrArg List.length hclips
    simp [clips] at hlength

/-- The clip at two ends at five, and so does the clip that it is joined to: the footage from
five to ten is lost. -/
theorem not_covers_of_inner_clip :
    let clips : List (Clip Rat) := [⟨0, 0, 10⟩, ⟨0, 2, 3⟩]
    (∀ a ∈ clips, ∀ b ∈ clips, a.source = b.source) ∧ (0 : Rat) ≤ 2 ∧
      ∃ cleaned, sanitize 2 clips = .ok cleaned ∧
        ∃ c ∈ clips, 2 < c.duration ∧ c.Covers 7 ∧ ¬ ∃ r ∈ cleaned, r.Covers 7 := by
  intro clips
  have hlong : longEnough 2 clips = clips := by
    rw [longEnough, arrange_eq_self (by decide)]
    decide
  have hcleaned : sanitize 2 clips = .ok [⟨0, 0, 5⟩] :=
    sanitize_eq_ok_iff.2 ⟨_, _, hlong, by decide +kernel⟩
  refine ⟨by decide, by decide, _, hcleaned, ⟨0, 0, 10⟩, List.mem_cons_self, ?_⟩
  simp only [Covers]
  decide +kernel

end Covering

end Montage.Clip
