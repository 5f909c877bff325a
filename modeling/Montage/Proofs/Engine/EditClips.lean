import Montage.Engine.Edit
import Montage.Proofs.Clip.Sanitize

/-!
# The clips of an edit

A flat list of numbers describes the clips of an edit, and is refused for one of four
reasons (`Refused`). If there is no reason to refuse it, the clips that are left once they
are cleaned all come from inputs that were given (`clipsOfEdits_cases`): cleaning arranges
clips, drops some, and joins one to the next, but it takes no clip from another source.
-/

namespace Montage

namespace Triplet

@[simp] theorem source_toClip (transition : Nat) (t : Triplet) :
    (t.toClip transition).source = t.source := rfl

@[simp] theorem duration_toClip (transition : Nat) (t : Triplet) :
    (t.toClip transition).duration = seconds t.duration := rfl

theorem getElem?_ofFlat (edits : List Nat) (i : Nat) :
    (ofFlat edits)[i]? = (edits[3 * i]?).bind fun source => (edits[3 * i + 1]?).bind fun start =>
      (edits[3 * i + 2]?).map fun duration => ⟨source, start, duration⟩ := by
  fun_induction ofFlat edits generalizing i with
  | case1 source start duration rest ih =>
    cases i with
    | zero => rfl
    | succ i => exact ih i
  | case2 edits hshort =>
    have hlength : edits.length < 3 := by
      match edits, hshort with
      | [], _ | [_], _ | [_, _], _ => simp
      | source :: start :: duration :: rest, hshort => exact absurd rfl (hshort _ _ _ _)
    rw [List.getElem?_eq_none (i := 3 * i + 2) (by omega)]
    simp

theorem mem_ofFlat_iff {edits : List Nat} {t : Triplet} :
    t ∈ ofFlat edits ↔ ∃ i, edits[3 * i]? = some t.source ∧ edits[3 * i + 1]? = some t.start ∧
      edits[3 * i + 2]? = some t.duration := by
  rw [List.mem_iff_getElem?]
  refine exists_congr fun i => ?_
  simp only [getElem?_ofFlat, Option.bind_eq_some_iff, Option.map_eq_some_iff]
  constructor
  · rintro ⟨source, hsource, start, hstart, duration, hduration, rfl⟩
    exact ⟨hsource, hstart, hduration⟩
  · rintro ⟨hsource, hstart, hduration⟩
    exact ⟨_, hsource, _, hstart, _, hduration, rfl⟩

theorem exists_mem_ofFlat {edits : List Nat} (h : edits.length % 3 = 0) {i k value : Nat}
    (hk : k < 3) (hvalue : edits[3 * i + k]? = some value) :
    ∃ t ∈ ofFlat edits, [t.source, t.start, t.duration][k]? = some value := by
  have hlength : 3 * i + k < edits.length := (List.getElem?_eq_some_iff.1 hvalue).1
  have hplace (j : Nat) (hj : j < 3) : ∃ value, edits[3 * i + j]? = some value :=
    ⟨_, List.getElem?_eq_getElem (by omega)⟩
  obtain ⟨source, hsource⟩ := hplace 0 (by decide)
  obtain ⟨start, hstart⟩ := hplace 1 (by decide)
  obtain ⟨duration, hduration⟩ := hplace 2 (by decide)
  refine ⟨⟨source, start, duration⟩, mem_ofFlat_iff.2 ⟨i, hsource, hstart, hduration⟩, ?_⟩
  match k, hk with
  | 0, _ => exact hsource.symm.trans hvalue
  | 1, _ => exact hstart.symm.trans hvalue
  | 2, _ => exact hduration.symm.trans hvalue

end Triplet

/-- Why a list of edits is refused: it is not made of triplets, a source is no input, there
is no triplet, or no clip is longer than the transition. -/
def Refused (inputs transition : Nat) (edits : List Nat) : Prop :=
  edits.length % 3 ≠ 0 ∨ (∃ i source, edits[3 * i]? = some source ∧ inputs ≤ source) ∨
    edits = [] ∨ ∀ i duration, edits[3 * i + 2]? = some duration →
      ClipTime.less (wholeSeconds transition) (seconds duration) = false

theorem refused_iff {inputs transition : Nat} {edits : List Nat} (h : edits.length % 3 = 0) :
    Refused inputs transition edits ↔ (∃ t ∈ Triplet.ofFlat edits, inputs ≤ t.source) ∨
      ∀ t ∈ Triplet.ofFlat edits,
        ClipTime.less (wholeSeconds transition) (seconds t.duration) = false := by
  constructor
  · rintro (hpart | ⟨i, source, hsource, hunknown⟩ | rfl | hshort)
    · exact absurd h hpart
    · obtain ⟨t, ht, hplace⟩ := Triplet.exists_mem_ofFlat h (k := 0) (by decide) hsource
      obtain rfl : t.source = source := Option.some.inj hplace
      exact Or.inl ⟨t, ht, hunknown⟩
    · exact Or.inr fun t ht => absurd ht List.not_mem_nil
    · refine Or.inr fun t ht => ?_
      obtain ⟨i, _, _, hduration⟩ := Triplet.mem_ofFlat_iff.1 ht
      exact hshort i t.duration hduration
  · rintro (⟨t, ht, hunknown⟩ | hshort)
    · obtain ⟨i, hsource, _⟩ := Triplet.mem_ofFlat_iff.1 ht
      exact Or.inr (Or.inl ⟨i, t.source, hsource, hunknown⟩)
    · refine Or.inr (Or.inr (Or.inr fun i duration hduration => ?_))
      obtain ⟨t, ht, hplace⟩ := Triplet.exists_mem_ofFlat h (by decide) hduration
      obtain rfl : t.duration = duration := Option.some.inj hplace
      exact hshort t ht

/-- Edits that are not refused make clips of the inputs. -/
theorem clipsOfEdits_cases (inputs transition : Nat) (edits : List Nat) :
    (Refused inputs transition edits ∧
        ∃ fault, clipsOfEdits inputs transition edits = .error (.invalidEdit fault)) ∨
      ¬ Refused inputs transition edits ∧
        ∃ clips, clipsOfEdits inputs transition edits = .ok clips ∧ clips ≠ [] ∧
          ∀ c ∈ clips, c.source < inputs := by
  unfold clipsOfEdits
  by_cases hlength : edits.length % 3 ≠ 0
  · exact Or.inl ⟨Or.inl hlength, _, if_pos hlength⟩
  rw [if_neg hlength]
  rw [not_not] at hlength
  rw [refused_iff hlength]
  dsimp only
  cases hfound : (Triplet.ofFlat edits).find? fun t => inputs ≤ t.source with
  | some t =>
    have hunknown : inputs ≤ t.source := by simpa using List.find?_some hfound
    exact Or.inl ⟨Or.inl ⟨t, List.mem_of_find?_eq_some hfound, hunknown⟩, _, rfl⟩
  | none =>
    have hknown : ∀ t ∈ Triplet.ofFlat edits, t.source < inputs := by
      simpa using hfound
    rcases Clip.sanitize_cases (wholeSeconds transition)
      ((Triplet.ofFlat edits).map (·.toClip transition)) with
      ⟨hshort, hfault⟩ | ⟨⟨_, hlong, hless⟩, cleaned, hcleaned, hne, hfrom⟩
    · refine Or.inl ⟨Or.inr fun t ht => ?_, hfault⟩
      have hclip := hshort (t.toClip transition) (List.mem_map_of_mem ht)
      rwa [Triplet.duration_toClip] at hclip
    · obtain ⟨t, ht, rfl⟩ := List.mem_map.1 hlong
      refine Or.inr ⟨?_, cleaned, hcleaned, hne, fun c hc => ?_⟩
      · rintro (⟨u, hu, hunknown⟩ | hshort)
        · exact absurd (hknown u hu) (by omega)
        · rw [Triplet.duration_toClip, hshort t ht] at hless
          cases hless
      · obtain ⟨d, hd, hsource, _⟩ := hfrom c hc
        obtain ⟨u, hu, rfl⟩ := List.mem_map.1 hd
        rw [Triplet.source_toClip] at hsource
        exact hsource ▸ hknown u hu

end Montage
