import Mathlib
import Montage.Proofs.Clip.Sanitize

/-!
# Clips with times in double precision

Sums of doubles are rounded, and comparing with a NaN fails, so a joined clip need not end where
its last part does, and nothing is longer than a NaN. What cleaning promises for all doubles
rests on no law of arithmetic (`sanitize_doubles`): starts are never computed, and neighbours
that are left were compared with the very numbers that they are left with.

All of Mathlib is imported for `Float.ofBits_toBits`, whose module is among the imports of no
single file of it.
-/

namespace Montage

namespace FloatPattern

@[simp] theorem toFloat_ofFloat (x : Float) : (ofFloat x).toFloat = x :=
  Float.ofBits_toBits x

@[simp] theorem toFloat_add (a b : FloatPattern) : (a + b).toFloat = a.toFloat + b.toFloat :=
  toFloat_ofFloat _

@[simp] theorem toFloat_sub (a b : FloatPattern) : (a - b).toFloat = a.toFloat - b.toFloat :=
  toFloat_ofFloat _

theorem less_iff {a b : FloatPattern} : ClipTime.less a b = true ↔ a.toFloat < b.toFloat :=
  decide_eq_true_iff

end FloatPattern

namespace Clip

/-- Clips of one source are sorted by the place of their start among all doubles, and those with
the same start keep their order; clips of several sources keep theirs. -/
structure IsRanked (clips ranked : List (Clip FloatPattern)) : Prop where
  ordered : (∀ a ∈ clips, ∀ b ∈ clips, a.source = b.source) →
    ranked.Pairwise fun a b => a.start.rank ≤ b.start.rank
  stable : ∀ t, ranked.filter (·.start = t) = clips.filter (·.start = t)
  given : (∃ a ∈ clips, ∃ b ∈ clips, a.source ≠ b.source) → ranked = clips

variable {gap : FloatPattern} {a b : Clip FloatPattern}

theorem isRanked_arrange (clips : List (Clip FloatPattern)) : IsRanked clips (arrange clips) where
  ordered := pairwise_arrange FloatPattern.rank fun _ _ => rfl
  stable := filter_arrange FloatPattern.rank (fun _ _ => rfl) clips
  given := arrange_of_sources

theorem closeTo_doubles_iff : closeTo gap a b = true ↔ b.source = a.source ∧
    b.start.toFloat - (a.start.toFloat + a.duration.toFloat) < gap.toFloat := by
  simp only [closeTo, stop, Bool.and_eq_true, beq_iff_eq, FloatPattern.less_iff,
    FloatPattern.toFloat_sub, FloatPattern.toFloat_add]

/-- Clips are refused exactly if none is longer than the gap. Otherwise some are left, no two
neighbours of them are close, and the starts are taken from the clips that are longer than the
gap, in their order and from the first one on. -/
theorem sanitize_doubles (gap : FloatPattern) (clips : List (Clip FloatPattern)) :
    (∀ fault, sanitize gap clips = .error fault ↔
      (clips = [] ∨ ∀ c ∈ clips, ¬ gap.toFloat < c.duration.toFloat) ∧
        fault = .invalidEdit (if clips = [] then .noClips
          else .allTooShort (showFloat gap.toFloat))) ∧
    ((∃ c ∈ clips, gap.toFloat < c.duration.toFloat) → ∃ cleaned,
      sanitize gap clips = .ok cleaned ∧ cleaned ≠ [] ∧
      (cleaned.IsChain fun a b => ¬ (a.source = b.source ∧
        b.start.toFloat - (a.start.toFloat + a.duration.toFloat) < gap.toFloat)) ∧
      ∃ ranked, IsRanked clips ranked ∧
        let kept := ranked.filter (gap.toFloat < ·.duration.toFloat)
        (cleaned.map origin).Sublist (kept.map origin) ∧
        (cleaned.map origin).head? = (kept.map origin).head?) := by
  have hshort {d : FloatPattern} :
      ClipTime.less gap d = false ↔ ¬ gap.toFloat < d.toFloat := by
    rw [← FloatPattern.less_iff, Bool.not_eq_true]
  constructor
  · intro fault
    rw [sanitize_eq_error_iff]
    simp only [hshort]
    by_cases hempty : clips = []
    · simp [hempty]
    · simp only [hempty, ne_eq, not_false_eq_true, false_and, true_and, false_or, if_false]
      rfl
  · rintro ⟨c, hc, hlong⟩
    rcases sanitize_cases gap clips with ⟨hnone, _⟩ | ⟨_, cleaned, hcleaned, hne, _⟩
    · exact absurd hlong (hshort.1 (hnone c hc))
    · obtain ⟨first, later, hkept, rfl⟩ := sanitize_eq_ok_iff.1 hcleaned
      refine ⟨_, hcleaned, hne, ?_, arrange clips, isRanked_arrange clips, ?_⟩
      · refine (isChain_of_sanitize hcleaned).imp fun a b hapart => ?_
        rw [eq_comm (a := a.source), ← closeTo_doubles_iff, hapart]
        exact Bool.false_ne_true
      · intro kept
        have hfirst : kept = first :: later := hkept
        rw [hfirst, List.head?_map, head?_joinClose]
        exact ⟨sublist_joinClose gap first later, rfl⟩

/-- The clip that starts at a NaN stays on its own, and the one that is as long as a NaN is
dropped. The starts at the two zeros are joined. Behind ten million billion seconds the computed
cut is two seconds; without rounding it would be one. -/
theorem sanitize_doubles_nan :
    let gap : FloatPattern := ⟨0x4000000000000000⟩
    let five : FloatPattern := ⟨0x4014000000000000⟩
    let clips : List (Clip FloatPattern) :=
      [⟨0, ⟨0xfff8000000000000⟩, five⟩, ⟨0, ⟨0x8000000000000000⟩, five⟩, ⟨0, ⟨0⟩, five⟩,
        ⟨0, ⟨0x4341c37937e08000⟩, five⟩, ⟨0, ⟨0x4341c37937e08001⟩, ⟨0x7ff8000000000000⟩⟩,
        ⟨0, ⟨0x4341c37937e08003⟩, five⟩]
    (∃ c ∈ clips, gap.toFloat < c.duration.toFloat) ∧ ∃ cleaned,
      sanitize gap clips = .ok cleaned ∧
      (cleaned.IsChain fun a b => ¬ (a.source = b.source ∧
        b.start.toFloat - (a.start.toFloat + a.duration.toFloat) < gap.toFloat)) ∧
      cleaned.map origin = [(0, ⟨0xfff8000000000000⟩), (0, ⟨0x8000000000000000⟩),
        (0, ⟨0x4341c37937e08000⟩), (0, ⟨0x4341c37937e08003⟩)] := by
  intro gap five clips
  have hlong : ∃ c ∈ clips, gap.toFloat < c.duration.toFloat :=
    ⟨_, List.mem_cons_self, by decide +kernel⟩
  obtain ⟨cleaned, hcleaned, _, hapart, _⟩ := (sanitize_doubles gap clips).2 hlong
  refine ⟨hlong, cleaned, hcleaned, hapart, ?_⟩
  have hcomputed : (sanitize gap clips).toOption.map (·.map origin) = some
      [(0, ⟨0xfff8000000000000⟩), (0, ⟨0x8000000000000000⟩), (0, ⟨0x4341c37937e08000⟩),
        (0, ⟨0x4341c37937e08003⟩)] := by
    rw [sanitize, sanitize?, longEnough, arrange_eq_self (by decide +kernel)]
    decide +kernel
  rw [hcleaned] at hcomputed
  exact Option.some.inj hcomputed

end Clip

end Montage
