import Montage.Concat
import Montage.Proofs.Graph.PadName
import Montage.Proofs.Outcome

/-!
# The pads that a concatenation writes

A concatenation writes one lettered pad for each scaled input, one numbered pad
for each silence, and the final pads `[v]` and `[a]`. The letters never spell a
numbered pad, and never `a`, but the twenty-first of them is `v`. So
`nodup_writes_iff` bounds the inputs: pads stay apart exactly as long as no
video is joined or there are at most twenty inputs. `not_nodup_writes` is the
first concatenation that spells `[v]` twice.
-/

namespace Montage.Concat

def silent (inputs : List ConcatInput) : List (ConcatInput × Nat) :=
  inputs.zipIdx.filter fun x => !x.1.hasAudio

theorem silentClauses_eq_map (inputs : List ConcatInput) : silentClauses inputs =
    (silent inputs).map fun x => ⟨[], "aevalsrc=0::d=1", [silentPad x.2]⟩ := by
  unfold silentClauses silent
  induction inputs.zipIdx with
  | nil => rfl
  | cons x xs ih => cases h : x.1.hasAudio <;> simp [h, ih]

theorem writes_silentClauses (inputs : List ConcatInput) :
    (silentClauses inputs).flatMap Clause.writes = (silent inputs).map fun x => silentPad x.2 := by
  rw [silentClauses_eq_map, List.flatMap_map]
  exact List.map_eq_flatMap.symm

theorem scaledPad_injective : Function.Injective scaledPad := fun _ _ h =>
  Pad.letterName_injective (Pad.named_injective h)

theorem silentPad_injective : Function.Injective silentPad := by
  intro i j h
  have hname := (String.append_right_inj _).1 (Pad.named_injective h)
  have hindex : i + 1 = j + 1 := Nat.repr_injective hname
  omega

theorem scaledPad_ne_silentPad (i j : Nat) : scaledPad i ≠ silentPad j := by
  intro h
  have hname : Pad.letterName i = "silent" ++ toString (j + 1) := Pad.named_injective h
  have hs : 's' ∈ (Pad.letterName i).toList := by simp [hname]
  have hi : 'i' ∈ (Pad.letterName i).toList := by simp [hname]
  have hsame : 's' = 'i' := (Pad.eq_letter_of_mem hs).trans (Pad.eq_letter_of_mem hi).symm
  exact absurd hsame (by decide)

theorem scaledPad_eq_video_iff (i : Nat) : scaledPad i = .named "v" ↔ i = 20 := by
  have htwenty : scaledPad 20 = .named "v" := by decide
  rw [← htwenty]
  exact scaledPad_injective.eq_iff

theorem scaledPad_ne_audio (i : Nat) : scaledPad i ≠ .named "a" := by
  intro h
  have ha : 'a' ∈ (Pad.letterName i).toList := by
    rw [Pad.named_injective h]
    decide
  have hcode : 97 = 98 + i % 25 := by
    rw [← Pad.toNat_letter, ← Pad.eq_letter_of_mem ha]
    rfl
  omega

theorem silentPad_not_mem_finalPads (i : Nat) (video audio : Bool) :
    silentPad i ∉ finalPads video audio := by
  intro h
  have hname : "silent" ++ toString (i + 1) = "v" ∨ "silent" ++ toString (i + 1) = "a" := by
    cases video <;> cases audio <;> simp [finalPads, silentPad, Pad.named_injective.eq_iff] at h
    all_goals simp_all
  have hmem : 's' ∈ ("silent" ++ toString (i + 1)).toList := by simp
  rcases hname with hv | ha
  · rw [hv] at hmem
    exact absurd hmem (by decide)
  · rw [ha] at hmem
    exact absurd hmem (by decide)

theorem nodup_silentPads (inputs : List ConcatInput) :
    ((silent inputs).map fun x => silentPad x.2).Nodup := by
  have hindices : inputs.zipIdx.Pairwise fun x y => x.2 ≠ y.2 := by
    apply List.pairwise_map.1
    rw [List.zipIdx_map_snd]
    exact List.nodup_range'
  rw [List.Nodup, List.pairwise_map]
  exact (hindices.filter _).imp fun hne h => hne (silentPad_injective h)

theorem nodup_finalPads (video audio : Bool) : (finalPads video audio).Nodup := by
  cases video <;> cases audio <;> decide

theorem eq_of_clauses {inputs : List ConcatInput} {size : Option FrameSize}
    {rate : Option Float32} {cs : List Clause} (h : clauses inputs size rate = .ok cs) :
    if joinsVideo inputs then
      ∃ frame, size = some frame ∧ cs = fitClauses frame rate inputs ++
        (if joinsAudio inputs then silentClauses inputs else []) ++ [joinClause inputs]
    else cs = [joinClause inputs] := by
  obtain ⟨_, _, hrest⟩ := bind_eq_ok_iff.1 h
  cases hvideo : joinsVideo inputs with
  | false =>
      rw [hvideo] at hrest
      cases hrest
      rfl
  | true =>
      rw [hvideo] at hrest
      cases size with
      | none => cases hrest
      | some frame =>
          cases hrest
          exact ⟨frame, rfl, rfl⟩

theorem writes_fitClauses (frame : FrameSize) (rate : Option Float32)
    (inputs : List ConcatInput) :
    (fitClauses frame rate inputs).flatMap Clause.writes =
      (List.range inputs.length).map scaledPad := by
  rw [fitClauses, List.flatMap_map]
  exact List.map_eq_flatMap.symm

/-- The silences that are written: all of them if sound is joined, else none. -/
def silences (inputs : List ConcatInput) : List Pad :=
  if joinsAudio inputs then (silent inputs).map fun x => silentPad x.2 else []

theorem writes_eq_of_clauses {inputs : List ConcatInput} {size : Option FrameSize}
    {rate : Option Float32} {cs : List Clause} (h : clauses inputs size rate = .ok cs) :
    cs.flatMap Clause.writes =
      (if joinsVideo inputs then (List.range inputs.length).map scaledPad ++ silences inputs
      else []) ++ finalPads (joinsVideo inputs) (joinsAudio inputs) := by
  have heq := eq_of_clauses h
  cases hvideo : joinsVideo inputs with
  | false =>
      rw [hvideo] at heq
      rw [show cs = [joinClause inputs] from heq]
      simp [joinClause, hvideo]
  | true =>
      rw [hvideo] at heq
      obtain ⟨frame, _, rfl⟩ := heq
      cases haudio : joinsAudio inputs with
      | false => simp [writes_fitClauses, silences, joinClause, hvideo, haudio]
      | true => simp [writes_fitClauses, writes_silentClauses, silences, joinClause, hvideo, haudio]

theorem nodup_silences (inputs : List ConcatInput) : (silences inputs).Nodup := by
  unfold silences
  split
  · exact nodup_silentPads inputs
  · exact List.nodup_nil

theorem exists_of_mem_silences {inputs : List ConcatInput} {p : Pad} (h : p ∈ silences inputs) :
    ∃ i, p = silentPad i := by
  unfold silences at h
  split at h
  · obtain ⟨x, _, rfl⟩ := List.mem_map.1 h
    exact ⟨x.2, rfl⟩
  · cases h

theorem nodup_inputPads (inputs : List ConcatInput) (count : Nat) :
    ((List.range count).map scaledPad ++ silences inputs).Nodup := by
  rw [List.nodup_append]
  refine ⟨List.nodup_range.map scaledPad_injective, nodup_silences inputs, ?_⟩
  intro p hp q hq hpq
  obtain ⟨i, _, rfl⟩ := List.mem_map.1 hp
  obtain ⟨j, rfl⟩ := exists_of_mem_silences hq
  exact scaledPad_ne_silentPad i j hpq

/-- Only the twenty-first letter meets a final pad. -/
theorem scaledPad_mem_finalPads_iff (i : Nat) (audio : Bool) :
    scaledPad i ∈ finalPads true audio ↔ i = 20 := by
  rw [← scaledPad_eq_video_iff i]
  cases audio <;> simp [finalPads, scaledPad_ne_audio]

/-- With video, the pads are spelled apart for at most twenty inputs. -/
theorem nodup_append_finalPads_iff (inputs : List ConcatInput) (count : Nat) (audio : Bool) :
    ((List.range count).map scaledPad ++ silences inputs ++ finalPads true audio).Nodup ↔
      count ≤ 20 := by
  rw [List.nodup_append]
  constructor
  · rintro ⟨_, _, hapart⟩
    by_contra hcount
    have hscaled : scaledPad 20 ∈ (List.range count).map scaledPad :=
      List.mem_map_of_mem (List.mem_range.2 (by omega))
    have hfinal : scaledPad 20 ∈ finalPads true audio := (scaledPad_mem_finalPads_iff 20 audio).2 rfl
    exact hapart _ (List.mem_append_left _ hscaled) _ hfinal rfl
  · intro hcount
    refine ⟨nodup_inputPads inputs count, nodup_finalPads true audio, ?_⟩
    intro p hp q hq hpq
    subst hpq
    rcases List.mem_append.1 hp with hscaled | hsilent
    · obtain ⟨i, hi, rfl⟩ := List.mem_map.1 hscaled
      have htwenty := (scaledPad_mem_finalPads_iff i audio).1 hq
      have hlt := List.mem_range.1 hi
      omega
    · obtain ⟨i, rfl⟩ := exists_of_mem_silences hsilent
      exact silentPad_not_mem_finalPads i true audio hq

/-- The pads of a concatenation are spelled apart exactly as long as no video is
joined or there are at most twenty inputs: the twenty-first letter is `v`, and
so is the final video pad. -/
theorem nodup_writes_iff {inputs : List ConcatInput} {size : Option FrameSize}
    {rate : Option Float32} {cs : List Clause} (h : clauses inputs size rate = .ok cs) :
    (cs.flatMap Clause.writes).Nodup ↔ (joinsVideo inputs = true → inputs.length ≤ 20) := by
  rw [writes_eq_of_clauses h]
  cases hvideo : joinsVideo inputs with
  | false => simpa using nodup_finalPads false (joinsAudio inputs)
  | true => simpa using nodup_append_finalPads_iff inputs inputs.length (joinsAudio inputs)

/-- Two inputs with different streams are far from the bound. -/
theorem nodup_writes_two :
    let inputs : List ConcatInput := [⟨⟨"/in/a.mp4"⟩, true, true⟩, ⟨⟨"/in/b.mp4"⟩, true, false⟩]
    ∃ cs, clauses inputs (some ⟨1280, 720⟩) (some 25) = .ok cs ∧
      (cs.flatMap Clause.writes).Nodup := by
  intro inputs
  obtain ⟨cs, hcs⟩ : ∃ cs, clauses inputs (some ⟨1280, 720⟩) (some 25) = .ok cs := ⟨_, rfl⟩
  exact ⟨cs, hcs, (nodup_writes_iff hcs).2 (by decide)⟩

/-- Twenty-one inputs with video write `[v]` twice. -/
theorem not_nodup_writes :
    let inputs : List ConcatInput := List.replicate 21 ⟨⟨"/in/a.mp4"⟩, true, true⟩
    ∃ cs, clauses inputs (some ⟨1280, 720⟩) none = .ok cs ∧
      ¬ (cs.flatMap Clause.writes).Nodup := by
  intro inputs
  exact ⟨_, rfl, by decide⟩

end Montage.Concat
