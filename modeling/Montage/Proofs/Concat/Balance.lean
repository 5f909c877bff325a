import Mathlib.Data.List.Count
import Montage.Proofs.Concat.StreamReferences

/-!
# What the joining clause is fed with

The joining clause takes in the same number of pads from each input: one for video if any
input has video, and one for sound if any has sound. `IsBalanced` says that the clauses in
front of it make exactly the pads that it needs: a scaled video of each input, and a silence
in the place of each sound that is missing. `isBalanced_of_fragment` is about all three ways
of joining, since without video every input has sound and no silence is missing
(`eq_append_of_clauses`). The clauses are those that the text of the graph spells, with their
pads and their filters (`isLegible_of_mem_clauses`).
-/

namespace Montage

namespace Clause

def IsScaling (c : Clause) : Prop := "scale=".toList <:+: c.filter.toList

def IsSilence (c : Clause) : Prop := c.filter = "aevalsrc=0::d=1"

instance : DecidablePred IsScaling := fun c =>
  inferInstanceAs (Decidable ("scale=".toList <:+: c.filter.toList))

instance : DecidablePred IsSilence := fun c => inferInstanceAs (Decidable (c.filter = _))

end Clause

namespace Concat

/-- The clause joins all inputs, one after the other, each with its video and its sound. -/
structure JoinsAll (inputs : List ConcatInput) (video audio : Bool) (c : Clause) : Prop where
  filter : c.filter = "concat=n=" ++ toString inputs.length ++ ":v=" ++
    (if video then "1" else "0") ++ ":a=" ++ if audio then "1" else "0"
  reads : c.reads = inputs.zipIdx.flatMap fun (input, i) =>
    (if video then [scaledPad i] else []) ++
      if audio then [if input.hasAudio then .stream i 'a' else silentPad i] else []
  writes : c.writes = (if video then [.named "v"] else []) ++ if audio then [.named "a"] else []
  balance : c.reads.length = inputs.length * c.writes.length

/-- The clauses prepare exactly what the last of them joins. -/
structure IsBalanced (inputs : List ConcatInput) (video audio : Bool) (cs : List Clause) :
    Prop where
  joins : ∃ last, cs.getLast? = some last ∧ JoinsAll inputs video audio last
  /-- The video of each input is scaled once. -/
  scales : (cs.filter (·.IsScaling)).map (fun c => (c.reads, c.writes)) =
    if video then (List.range inputs.length).map fun i => ([.stream i 'v'], [scaledPad i]) else []
  /-- There is a silence for each input without sound. -/
  silences : (cs.filter (·.IsSilence)).map (fun c => (c.reads, c.writes)) =
    if audio then (silent inputs).map fun x => ([], [silentPad x.2]) else []
  prepares : ∀ c ∈ cs.dropLast, c.IsScaling ∨ c.IsSilence
  /-- A silence is written once and read once where sound is missing, and else neither. -/
  silence_once : ∀ i, let count := if audio && inputs[i]?.any (!·.hasAudio) then 1 else 0
    (cs.flatMap Clause.writes).count (silentPad i) = count ∧
      (cs.flatMap Clause.reads).count (silentPad i) = count

variable {inputs : List ConcatInput} {size : Option FrameSize} {rate : Option Float32}
  {cs : List Clause} {video audio : Bool}

theorem isScaling_fitFilter (frame : FrameSize) (rate : Option Float32) (reads writes : List Pad) :
    (Clause.mk reads (fitFilter frame rate) writes).IsScaling := by
  have hname : "scale=".toList <:+: "scale=iw*".toList := by decide
  unfold Clause.IsScaling fitFilter
  simp only [String.toList_append, List.append_assoc]
  exact hname.trans (List.infix_append' _ _ _)

theorem s_not_mem_joinFilter (inputs : List ConcatInput) :
    's' ∉ (joinClause inputs).filter.toList := by
  have hlength : 's' ∉ (toString inputs.length).toList := not_mem_toString (by decide)
  have hflag (b : Bool) : 's' ∉ (if b then "1" else "0").toList := by cases b <;> decide
  simp only [joinClause, String.toList_append, List.mem_append, hlength, hflag, or_false]
  decide

theorem not_isScaling_joinClause (inputs : List ConcatInput) : ¬ (joinClause inputs).IsScaling :=
  fun h => s_not_mem_joinFilter inputs (h.subset (by decide))

theorem not_isSilence_joinClause (inputs : List ConcatInput) : ¬ (joinClause inputs).IsSilence := by
  intro h
  apply s_not_mem_joinFilter inputs
  rw [show (joinClause inputs).filter = "aevalsrc=0::d=1" from h]
  decide

theorem not_isSilence_fitFilter (frame : FrameSize) (rate : Option Float32)
    (reads writes : List Pad) :
    ¬ (Clause.mk reads (fitFilter frame rate) writes).IsSilence := by
  intro h
  have hscaling := isScaling_fitFilter frame rate reads writes
  rw [Clause.IsScaling, show (Clause.mk reads (fitFilter frame rate) writes).filter = _ from h]
    at hscaling
  exact absurd hscaling (by decide)

theorem hasAudio_of_validate (hvalid : validate inputs = .ok ()) (hvideo : joinsVideo inputs = false)
    {input : ConcatInput} (hinput : input ∈ inputs) : input.hasAudio = true := by
  have hnone : inputs.find? (fun i => !i.hasVideo && !i.hasAudio) = none := by
    unfold validate at hvalid
    split at hvalid
    · cases hvalid
    · split at hvalid
      · cases hvalid
      · assumption
  have hstream := List.find?_eq_none.1 hnone input hinput
  have hno : ¬ input.hasVideo = true := List.any_eq_false.1 hvideo input hinput
  simpa [hno] using hstream

def preparation (frame : FrameSize) (rate : Option Float32) (inputs : List ConcatInput) :
    List Clause :=
  (if joinsVideo inputs then fitClauses frame rate inputs else []) ++
    if joinsAudio inputs then silentClauses inputs else []

/-- Without video no sound is missing, so the three ways to join are one. -/
theorem eq_append_of_clauses (h : clauses inputs size rate = .ok cs) :
    ∃ frame, cs = preparation frame rate inputs ++ [joinClause inputs] := by
  obtain ⟨_, hvalid, _⟩ := bind_eq_ok_iff.1 h
  have heq := eq_of_clauses h
  cases hvideo : joinsVideo inputs with
  | true =>
    rw [hvideo] at heq
    obtain ⟨frame, _, rfl⟩ := heq
    refine ⟨frame, ?_⟩
    rw [preparation, hvideo]
    rfl
  | false =>
    rw [hvideo] at heq
    have hsilent : silent inputs = [] := by
      apply List.filter_eq_nil_iff.2
      rintro ⟨input, i⟩ hmem
      simpa using hasAudio_of_validate hvalid hvideo (List.fst_mem_of_mem_zipIdx hmem)
    refine ⟨⟨0, 0⟩, ?_⟩
    rw [show cs = [joinClause inputs] from heq, preparation, silentClauses_eq_map, hsilent, hvideo]
    simp

theorem joined_eq (video audio : Bool) (input : ConcatInput) (i : Nat) :
    joined video audio input i = (if video then [scaledPad i] else []) ++
      if audio then [if input.hasAudio then .stream i 'a' else silentPad i] else [] := by
  unfold joined
  cases audio <;> cases input.hasAudio <;> rfl

theorem length_joined (video audio : Bool) (input : ConcatInput) (i : Nat) :
    (joined video audio input i).length = (finalPads video audio).length := by
  rw [joined_eq]
  cases video <;> cases audio <;> simp [finalPads]

theorem joinsAll_joinClause (inputs : List ConcatInput) :
    JoinsAll inputs (joinsVideo inputs) (joinsAudio inputs) (joinClause inputs) where
  filter := rfl
  reads := by
    simp only [joinClause, joined_eq]
  writes := rfl
  balance := by
    unfold joinClause
    rw [List.length_flatMap]
    simp [length_joined]

theorem count_joined (video audio : Bool) (input : ConcatInput) (i k : Nat) :
    (joined video audio input i).count (silentPad k) =
      (if audio && !input.hasAudio then [silentPad i] else []).count (silentPad k) := by
  have hscaled : scaledPad i ≠ silentPad k := scaledPad_ne_silentPad i k
  have hstream : Pad.stream i 'a' ≠ silentPad k := @stream_ne_silentPad i k .audio
  unfold joined
  cases video <;> cases audio <;> cases input.hasAudio <;> simp [hscaled, hstream]

theorem count_flatMap_joined (video audio : Bool) (l : List (ConcatInput × Nat)) (k : Nat) :
    (l.flatMap fun (input, i) => joined video audio input i).count (silentPad k) =
      (if audio then (l.filter (!·.1.hasAudio)).map (silentPad ·.2) else []).count
        (silentPad k) := by
  induction l with
  | nil => cases audio <;> rfl
  | cons x l ih =>
    rw [List.flatMap_cons, List.count_append, count_joined, ih]
    cases audio <;> cases hhas : x.1.hasAudio <;> simp [hhas, List.count_cons, Nat.add_comm]

theorem mem_silences_iff {k : Nat} : silentPad k ∈ silences inputs ↔
    joinsAudio inputs = true ∧ inputs[k]?.any (!·.hasAudio) = true := by
  have hsilent : silentPad k ∈ (silent inputs).map (silentPad ·.2) ↔
      inputs[k]?.any (!·.hasAudio) = true := by
    simp only [silent, List.mem_map, List.mem_filter, Prod.exists, List.mk_mem_zipIdx_iff_getElem?,
      silentPad_injective.eq_iff, Option.any_eq_true]
    constructor
    · rintro ⟨input, i, ⟨hinput, hhas⟩, rfl⟩
      exact ⟨input, hinput, hhas⟩
    · rintro ⟨input, hinput, hhas⟩
      exact ⟨input, k, ⟨hinput, hhas⟩, rfl⟩
  unfold silences
  cases joinsAudio inputs with
  | false => simp
  | true => simpa using hsilent

theorem count_silences (inputs : List ConcatInput) (k : Nat) :
    (silences inputs).count (silentPad k) =
      if joinsAudio inputs && inputs[k]?.any (!·.hasAudio) then 1 else 0 := by
  rw [(nodup_silences inputs).count]
  simp only [mem_silences_iff, Bool.and_eq_true]

theorem scaling_fitClauses (frame : FrameSize) (rate : Option Float32) (inputs : List ConcatInput) :
    ∀ c ∈ fitClauses frame rate inputs, c.IsScaling ∧ ¬ c.IsSilence :=
  List.forall_mem_map.2 fun _ _ =>
    ⟨isScaling_fitFilter frame rate _ _, not_isSilence_fitFilter frame rate _ _⟩

theorem silence_silentClauses (inputs : List ConcatInput) :
    ∀ c ∈ silentClauses inputs, c.IsSilence ∧ ¬ c.IsScaling := by
  rw [silentClauses_eq_map, List.forall_mem_map]
  intro x _
  have hscaling : ¬ "scale=".toList <:+: "aevalsrc=0::d=1".toList := by decide
  exact ⟨rfl, hscaling⟩

theorem filter_isScaling_preparation (frame : FrameSize) (rate : Option Float32)
    (inputs : List ConcatInput) :
    (preparation frame rate inputs).filter (·.IsScaling) =
      if joinsVideo inputs then fitClauses frame rate inputs else [] := by
  have hfit : (fitClauses frame rate inputs).filter (·.IsScaling) = fitClauses frame rate inputs :=
    List.filter_eq_self.2 fun c hc => decide_eq_true (scaling_fitClauses frame rate inputs c hc).1
  have hsilent : (silentClauses inputs).filter (·.IsScaling) = [] :=
    List.filter_eq_nil_iff.2 fun c hc => by simpa using (silence_silentClauses inputs c hc).2
  rw [preparation, List.filter_append]
  cases joinsVideo inputs <;> cases joinsAudio inputs <;> simp [hfit, hsilent]

theorem filter_isSilence_preparation (frame : FrameSize) (rate : Option Float32)
    (inputs : List ConcatInput) :
    (preparation frame rate inputs).filter (·.IsSilence) =
      if joinsAudio inputs then silentClauses inputs else [] := by
  have hfit : (fitClauses frame rate inputs).filter (·.IsSilence) = [] :=
    List.filter_eq_nil_iff.2 fun c hc => by simpa using (scaling_fitClauses frame rate inputs c hc).2
  have hsilent : (silentClauses inputs).filter (·.IsSilence) = silentClauses inputs :=
    List.filter_eq_self.2 fun c hc => decide_eq_true (silence_silentClauses inputs c hc).1
  rw [preparation, List.filter_append]
  cases joinsVideo inputs <;> cases joinsAudio inputs <;> simp [hfit, hsilent]

theorem isScaling_or_isSilence_of_mem_preparation {frame : FrameSize} {c : Clause}
    (h : c ∈ preparation frame rate inputs) : c.IsScaling ∨ c.IsSilence := by
  rcases List.mem_append.1 h with hfit | hsilent
  · split at hfit
    · exact .inl (scaling_fitClauses frame rate inputs c hfit).1
    · cases hfit
  · split at hsilent
    · exact .inr (silence_silentClauses inputs c hsilent).1
    · cases hsilent

theorem count_writes_preparation (frame : FrameSize) (rate : Option Float32)
    (inputs : List ConcatInput) (k : Nat) :
    ((preparation frame rate inputs).flatMap Clause.writes).count (silentPad k) =
      (silences inputs).count (silentPad k) := by
  have hfit : ((fitClauses frame rate inputs).flatMap Clause.writes).count (silentPad k) = 0 := by
    rw [writes_fitClauses, List.count_eq_zero]
    simp [scaledPad_ne_silentPad]
  rw [preparation, silences, List.flatMap_append, List.count_append]
  cases joinsVideo inputs <;> cases joinsAudio inputs <;> simp [hfit, writes_silentClauses]

theorem silentPad_not_mem_reads_preparation (frame : FrameSize) (rate : Option Float32)
    (inputs : List ConcatInput) (k : Nat) :
    silentPad k ∉ (preparation frame rate inputs).flatMap Clause.reads := by
  have hstream (i : Nat) : silentPad k ≠ Pad.stream i 'v' :=
    Ne.symm (@stream_ne_silentPad i k .video)
  rw [preparation, silentClauses_eq_map, fitClauses]
  cases joinsVideo inputs <;> cases joinsAudio inputs <;> simp [List.flatMap_map, hstream]

theorem isBalanced_append (frame : FrameSize) (rate : Option Float32) (inputs : List ConcatInput) :
    IsBalanced inputs (joinsVideo inputs) (joinsAudio inputs)
      (preparation frame rate inputs ++ [joinClause inputs]) where
  joins := ⟨joinClause inputs, List.getLast?_concat, joinsAll_joinClause inputs⟩
  scales := by
    rw [List.filter_append, filter_isScaling_preparation]
    cases joinsVideo inputs <;> simp [not_isScaling_joinClause, fitClauses, Function.comp_def]
  silences := by
    rw [List.filter_append, filter_isSilence_preparation, silentClauses_eq_map]
    cases joinsAudio inputs <;> simp [not_isSilence_joinClause, Function.comp_def]
  prepares := by
    rw [List.dropLast_concat]
    exact fun c hc => isScaling_or_isSilence_of_mem_preparation hc
  silence_once := by
    intro k
    dsimp only
    rw [← count_silences, List.flatMap_append, List.flatMap_append, List.flatMap_singleton,
      List.flatMap_singleton, List.count_append, List.count_append, count_writes_preparation,
      List.count_eq_zero.2 (silentPad_not_mem_reads_preparation frame rate inputs k)]
    constructor
    · exact Nat.add_eq_left.2 (List.count_eq_zero.2 (silentPad_not_mem_finalPads k _ _))
    · rw [Nat.zero_add]
      exact count_flatMap_joined _ _ inputs.zipIdx k

theorem split_graph (h : clauses inputs size rate = .ok cs) :
    Text.split ';' (";".intercalate (cs.map Clause.text)) = cs.map Clause.text := by
  have hne : cs.map Clause.text ≠ [] := by
    obtain ⟨frame, rfl⟩ := eq_append_of_clauses h
    simp
  have hsilence : IsFilterText "aevalsrc=0::d=1" := by decide
  have hfilter : ∀ c ∈ cs, IsFilterText c.filter :=
    forall_mem_clauses h (fun frame _ => isFilterText_fitFilter frame rate) (fun _ => hsilence)
      (isFilterText_joinFilter inputs)
  refine Text.split_intercalate rfl hne (List.forall_mem_map.2 fun c hc => ?_)
  exact Clause.semicolon_not_mem_text (isReadable_of_mem_clauses h c hc).1
    fun hmem => (hfilter c hc).ne hmem (by decide) rfl

theorem isLegible_of_mem_clauses (h : clauses inputs size rate = .ok cs) :
    ∀ c ∈ cs, c.IsLegible := by
  intro c hc
  obtain ⟨hreadable, hfilter⟩ := isReadable_of_mem_clauses h c hc
  exact Clause.isLegible hreadable hfilter

/-- A concatenation that succeeds joins video if an input has video, and sound if an input has
sound. Its text is that of clauses that are balanced, and what they join is mapped. -/
theorem isBalanced_of_fragment {text : String} (h : fragment inputs size rate = .ok text) :
    ∃ (video audio : Bool) (cs : List Clause),
      (video = true ↔ ∃ input ∈ inputs, input.hasVideo = true) ∧
      (audio = true ↔ ∃ input ∈ inputs, input.hasAudio = true) ∧
      clauses inputs size rate = .ok cs ∧
      text = String.join (inputs.map fun input => "-i " ++ input.path.quoted ++ " ") ++
        "-filter_complex " ++ ";".intercalate (cs.map Clause.text) ++
        (if video then " -map [v]" else "") ++ (if audio then " -map [a]" else "") ∧
      Text.split ';' (";".intercalate (cs.map Clause.text)) = cs.map Clause.text ∧
      (∀ c ∈ cs, c.IsLegible) ∧
      IsBalanced inputs video audio cs := by
  obtain ⟨cs, hcs, htext⟩ := exists_graph_of_fragment h
  have hmaps : Composite.mapText (maps inputs) =
      (if joinsVideo inputs then " -map [v]" else "") ++
        if joinsAudio inputs then " -map [a]" else "" := by
    unfold maps
    cases joinsVideo inputs <;> cases joinsAudio inputs <;> rfl
  refine ⟨joinsVideo inputs, joinsAudio inputs, cs, List.any_eq_true, List.any_eq_true, hcs, ?_,
    split_graph hcs, isLegible_of_mem_clauses hcs, ?_⟩
  · rw [htext, hmaps, sources, ← String.append_assoc]
  · obtain ⟨frame, rfl⟩ := eq_append_of_clauses hcs
    exact isBalanced_append frame rate inputs

/-- Of three inputs the second is silent, and it is the only one to get a silence. -/
theorem isBalanced_of_fragment_three :
    let inputs : List ConcatInput :=
      [⟨⟨"/in/a b.mp4"⟩, true, true⟩, ⟨⟨"/in/b.mp4"⟩, true, false⟩, ⟨⟨"/in/c.mp3"⟩, false, true⟩]
    let fit := fitFilter ⟨1280, 720⟩ (some 25)
    let graph := "[0:v]" ++ fit ++ "[b];[1:v]" ++ fit ++ "[c];[2:v]" ++ fit ++
      "[d];aevalsrc=0::d=1[silent2];[b][0:a][c][silent2][d][2:a]concat=n=3:v=1:a=1[v][a]"
    ∃ text cs, fragment inputs (some ⟨1280, 720⟩) (some 25) = .ok text ∧
      clauses inputs (some ⟨1280, 720⟩) (some 25) = .ok cs ∧
      text = "-i '/in/a b.mp4' -i /in/b.mp4 -i /in/c.mp3 -filter_complex " ++ graph ++
        " -map [v] -map [a]" ∧
      Text.split ';' graph = cs.map Clause.text ∧
      IsBalanced inputs true true cs ∧
      (cs.flatMap Clause.writes).count (silentPad 1) = 1 ∧
      (cs.flatMap Clause.reads).count (silentPad 1) = 1 ∧
      (cs.flatMap Clause.writes).count (silentPad 2) = 0 := by
  intro inputs fit graph
  obtain ⟨text, h⟩ : ∃ text, fragment inputs (some ⟨1280, 720⟩) (some 25) = .ok text := ⟨_, rfl⟩
  obtain ⟨video, audio, cs, hvideo, haudio, hcs, htext, hsplit, _, hbalanced⟩ :=
    isBalanced_of_fragment h
  obtain rfl : video = true := hvideo.2 ⟨inputs[0], by decide, rfl⟩
  obtain rfl : audio = true := haudio.2 ⟨inputs[0], by decide, rfl⟩
  obtain ⟨hwritten, hread⟩ := hbalanced.silence_once 1
  have hclauses : cs = [⟨[.stream 0 'v'], fit, [scaledPad 0]⟩,
      ⟨[.stream 1 'v'], fit, [scaledPad 1]⟩, ⟨[.stream 2 'v'], fit, [scaledPad 2]⟩,
      ⟨[], "aevalsrc=0::d=1", [silentPad 1]⟩, joinClause inputs] := (Except.ok.inj hcs).symm
  have hscaled : (scaledPad 0).text = "[b]" ∧ (scaledPad 1).text = "[c]" ∧
      (scaledPad 2).text = "[d]" ∧ (silentPad 1).text = "[silent2]" := by decide
  have hstreams : (Pad.stream 0 'v').text = "[0:v]" ∧ (Pad.stream 1 'v').text = "[1:v]" ∧
      (Pad.stream 2 'v').text = "[2:v]" := by decide
  have hjoin : (joinClause inputs).text =
      "[b][0:a][c][silent2][d][2:a]concat=n=3:v=1:a=1[v][a]" := by decide +kernel
  have hgraph : ";".intercalate (cs.map Clause.text) = graph := by
    rw [hclauses]
    simp only [List.map_cons, List.map_nil, hjoin, graph]
    generalize fit = filter
    simp [Clause.text, Pad.row, hscaled, hstreams, ← String.toList_inj]
  have hsources : String.join (inputs.map fun input => "-i " ++ input.path.quoted ++ " ") ++
      "-filter_complex " =
        "-i '/in/a b.mp4' -i /in/b.mp4 -i /in/c.mp3 -filter_complex " := by
    decide +kernel
  rw [hgraph] at htext hsplit
  refine ⟨text, cs, h, hcs, ?_, hsplit, hbalanced, hwritten, hread, (hbalanced.silence_once 2).1⟩
  rw [htext, hsources, String.append_assoc]
  rfl

end Concat

end Montage
