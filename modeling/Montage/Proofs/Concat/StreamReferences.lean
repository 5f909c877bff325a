import Montage.Proofs.Concat.FragmentText

/-!
# The streams that a concatenation refers to

The graph of a concatenation takes the streams of its inputs by name, such as `[0:v]` and
`[1:a]`. Sound is taken from the inputs that have some, and from these alone. Video is
taken from all inputs as soon as one of them has video. So all references lead to streams
exactly if the inputs have video all together or not at all (`refersTo_of_fragment`); an
input with nothing but sound next to one with video is referred to for a video that it
does not have (`refersTo_missing_video`).
-/

namespace Montage

def ConcatInput.has (input : ConcatInput) : StreamKind → Bool
  | .video => input.hasVideo
  | .audio => input.hasAudio

/-- The graph names a stream of an input file. -/
def RefersTo (graph : String) (file : Nat) (kind : StreamKind) : Prop :=
  toString file ++ ":" ++ kind.letter.toString ∈ Pad.names graph

namespace Pad

variable {i j : Nat} {kind kind' : StreamKind}

theorem stream_inj : stream i kind.letter = stream j kind'.letter ↔ i = j ∧ kind = kind' := by
  constructor
  · intro h
    have hlist := congrArg (fun p : Pad => p.text.toList) h
    simp only [toList_stream, List.append_assoc] at hlist
    obtain ⟨hdigits, hletters⟩ := List.append_inj' (List.cons.inj hlist).2 rfl
    refine ⟨EditPad.toDigits_injective hdigits, EditPad.letter_injective ?_⟩
    simpa using hletters
  · rintro ⟨rfl, rfl⟩
    rfl

theorem stream_ne_named {name : String} (h : ':' ∉ name.toList) :
    stream i kind.letter ≠ named name := by
  intro hname
  apply h
  rw [← named_injective hname]
  simp

end Pad

namespace Concat

variable {i j : Nat} {kind : StreamKind} {inputs : List ConcatInput} {size : Option FrameSize}
  {rate : Option Float32} {cs : List Clause}

theorem isNamed_scaledPad (i : Nat) : (scaledPad i).IsNamed := by
  refine ⟨Pad.letterName i, ?_, ?_, rfl⟩
  · intro hempty
    have hlist := Pad.toList_letterName i
    simp [hempty, List.replicate_succ] at hlist
  · apply IsNumeral.isPlain
    apply isNumeral_of_isAlphanum
    intro c hc
    rw [Pad.eq_letter_of_mem hc, Pad.isAlphanum_letter]

theorem isNamed_silentPad (i : Nat) : (silentPad i).IsNamed := by
  refine ⟨"silent" ++ toString (i + 1), ?_, IsPlain.append (by decide) (isPlain_toString _), rfl⟩
  intro hempty
  have hlist := congrArg String.toList hempty
  simp at hlist

theorem stream_ne_scaledPad : Pad.stream i kind.letter ≠ scaledPad j := by
  apply Pad.stream_ne_named
  intro hcolon
  have hletter := Pad.isAlphanum_letter j
  rw [← Pad.eq_letter_of_mem hcolon] at hletter
  exact absurd hletter (by decide)

theorem stream_ne_silentPad : Pad.stream i kind.letter ≠ silentPad j := by
  apply Pad.stream_ne_named
  rw [String.toList_append, List.mem_append, not_or]
  exact ⟨by decide, not_mem_toString (by decide)⟩

theorem stream_not_mem_finalPads (video audio : Bool) :
    Pad.stream i kind.letter ∉ finalPads video audio := by
  have hv : Pad.stream i kind.letter ≠ .named "v" := Pad.stream_ne_named (by decide)
  have ha : Pad.stream i kind.letter ≠ .named "a" := Pad.stream_ne_named (by decide)
  cases video <;> cases audio <;> simp [finalPads, hv, ha]

theorem stream_mem_joined_iff {video audio : Bool} {input : ConcatInput} :
    Pad.stream i kind.letter ∈ joined video audio input j ↔
      kind = .audio ∧ audio = true ∧ input.hasAudio = true ∧ i = j := by
  have haudio : Pad.stream i kind.letter = Pad.stream j 'a' ↔ i = j ∧ kind = .audio :=
    @Pad.stream_inj i j kind .audio
  unfold joined
  cases video <;> cases audio <;> cases input.hasAudio <;>
    simp [stream_ne_scaledPad, stream_ne_silentPad, haudio, and_comm]

theorem stream_mem_joinClause_iff :
    Pad.stream i kind.letter ∈ (joinClause inputs).pads ↔
      kind = .audio ∧ ∃ input, inputs[i]? = some input ∧ input.hasAudio = true := by
  rw [Clause.pads, List.mem_append]
  simp only [joinClause, stream_not_mem_finalPads, or_false, List.mem_flatMap, Prod.exists]
  constructor
  · rintro ⟨input, j, hinput, hmem⟩
    obtain ⟨hkind, _, hhas, rfl⟩ := stream_mem_joined_iff.1 hmem
    exact ⟨hkind, input, List.mk_mem_zipIdx_iff_getElem?.1 hinput, hhas⟩
  · rintro ⟨hkind, input, hinput, hhas⟩
    have hjoins : joinsAudio inputs = true :=
      List.any_eq_true.2 ⟨input, List.mem_of_getElem? hinput, hhas⟩
    exact ⟨input, i, List.mk_mem_zipIdx_iff_getElem?.2 hinput,
      stream_mem_joined_iff.2 ⟨hkind, hjoins, hhas, rfl⟩⟩

theorem stream_mem_fitClauses_iff {frame : FrameSize} :
    Pad.stream i kind.letter ∈ (fitClauses frame rate inputs).flatMap Clause.pads ↔
      kind = .video ∧ i < inputs.length := by
  have hvideo (j : Nat) : Pad.stream i kind.letter = Pad.stream j 'v' ↔ i = j ∧ kind = .video :=
    @Pad.stream_inj i j kind .video
  rw [fitClauses, List.flatMap_map]
  simp [Clause.pads, hvideo, stream_ne_scaledPad, and_comm]

theorem stream_not_mem_silentClauses :
    Pad.stream i kind.letter ∉ (silentClauses inputs).flatMap Clause.pads := by
  intro hmem
  obtain ⟨c, hc, hmem⟩ := List.mem_flatMap.1 hmem
  obtain ⟨⟨input, j⟩, _, hclause⟩ := List.mem_filterMap.1 hc
  dsimp only at hclause
  split at hclause
  · cases hclause
  · cases hclause
    exact stream_ne_silentPad (List.mem_singleton.1 hmem)

theorem stream_mem_pads_iff (h : clauses inputs size rate = .ok cs) :
    Pad.stream i kind.letter ∈ cs.flatMap Clause.pads ↔
      match kind with
      | .video => joinsVideo inputs = true ∧ i < inputs.length
      | .audio => ∃ input, inputs[i]? = some input ∧ input.hasAudio = true := by
  have hjoin : Pad.stream i kind.letter ∈ (joinClause inputs).pads ↔ _ := stream_mem_joinClause_iff
  have heq := eq_of_clauses h
  cases hvideo : joinsVideo inputs with
  | false =>
      rw [hvideo] at heq
      rw [show cs = [joinClause inputs] from heq, List.flatMap_singleton, hjoin]
      cases kind <;> simp
  | true =>
      rw [hvideo] at heq
      obtain ⟨frame, _, rfl⟩ := heq
      have hsilent : Pad.stream i kind.letter ∉
          (if joinsAudio inputs then silentClauses inputs else []).flatMap Clause.pads := by
        split
        · exact stream_not_mem_silentClauses
        · simp
      rw [List.flatMap_append, List.flatMap_append, List.mem_append, List.mem_append,
        List.flatMap_singleton, stream_mem_fitClauses_iff, hjoin]
      cases kind <;> simp [hsilent]

/-- The pads can be told from the text of the clause. -/
def IsReadable (c : Clause) : Prop := (∀ p ∈ c.pads, p.IsNamed) ∧ '[' ∉ c.filter.toList

theorem finalPads_cases {video audio : Bool} {p : Pad} (h : p ∈ finalPads video audio) :
    p = .named "v" ∨ p = .named "a" := by
  cases video <;> cases audio <;> simp [finalPads] at h <;> grind

theorem isNamed_of_mem_joinClause (inputs : List ConcatInput) :
    ∀ p ∈ (joinClause inputs).pads, p.IsNamed := by
  intro p hp
  rcases List.mem_append.1 hp with hread | hwritten
  · obtain ⟨⟨input, i⟩, _, hjoined⟩ := List.mem_flatMap.1 hread
    obtain rfl | rfl | rfl := joined_cases hjoined
    · exact isNamed_scaledPad i
    · exact Pad.isNamed_stream i .audio
    · exact isNamed_silentPad i
  · obtain rfl | rfl := finalPads_cases hwritten
    · exact ⟨"v", by decide, by decide, rfl⟩
    · exact ⟨"a", by decide, by decide, rfl⟩

theorem isReadable_of_mem_clauses (h : clauses inputs size rate = .ok cs) :
    ∀ c ∈ cs, IsReadable c := by
  have hbracket {filter : String} (hfilter : IsFilterText filter) : '[' ∉ filter.toList :=
    fun hmem => hfilter.ne hmem (by decide) rfl
  refine forall_mem_clauses h ?_ ?_ ⟨isNamed_of_mem_joinClause inputs,
    hbracket (isFilterText_joinFilter inputs)⟩
  · intro frame i
    have hstream : (Pad.stream i 'v').IsNamed := Pad.isNamed_stream i .video
    exact ⟨by simpa [Clause.pads] using ⟨hstream, isNamed_scaledPad i⟩,
      hbracket (isFilterText_fitFilter frame rate)⟩
  · intro i
    have hfilter : IsFilterText "aevalsrc=0::d=1" := by decide
    exact ⟨by simpa [Clause.pads] using isNamed_silentPad i, hbracket hfilter⟩

/-- The references in the text of the graph are those of its clauses. -/
theorem refersTo_iff (h : clauses inputs size rate = .ok cs) :
    RefersTo (";".intercalate (cs.map Clause.text)) i kind ↔
      match kind with
      | .video => joinsVideo inputs = true ∧ i < inputs.length
      | .audio => ∃ input, inputs[i]? = some input ∧ input.hasAudio = true := by
  have hreadable := isReadable_of_mem_clauses h
  rw [← stream_mem_pads_iff h, ← Clause.named_names_intercalate (fun c hc => (hreadable c hc).1)
    fun c hc => (hreadable c hc).2]
  exact (List.mem_map_of_injective Pad.named_injective).symm

theorem exists_graph_of_fragment {text : String} (h : fragment inputs size rate = .ok text) :
    ∃ cs, clauses inputs size rate = .ok cs ∧ text = sources inputs ++ "-filter_complex " ++
      ";".intercalate (cs.map Clause.text) ++ Composite.mapText (maps inputs) := by
  obtain ⟨cs, hcs, h⟩ := bind_eq_ok_iff.1 h
  exact ⟨cs, hcs, (pure_eq_ok_iff.1 h).symm⟩

/-- The inputs have a stream of the kind under this number. -/
def HasStream (inputs : List ConcatInput) (i : Nat) (kind : StreamKind) : Prop :=
  ∃ input, inputs[i]? = some input ∧ input.has kind = true

/-- The graph refers to sound where there is some. It refers to the video of every input as
soon as one has video, so each reference leads to a stream exactly if then all have video. -/
theorem refersTo_of_fragment {text : String} (h : fragment inputs size rate = .ok text) :
    ∃ graph, text = sources inputs ++ "-filter_complex " ++ graph ++
        Composite.mapText (maps inputs) ∧
      (∀ i, RefersTo graph i .audio ↔ HasStream inputs i .audio) ∧
      (∀ i, RefersTo graph i .video ↔ joinsVideo inputs = true ∧ i < inputs.length) ∧
      ((∀ i kind, RefersTo graph i kind → HasStream inputs i kind) ↔
        (joinsVideo inputs = true → ∀ input ∈ inputs, input.hasVideo = true)) := by
  obtain ⟨cs, hcs, htext⟩ := exists_graph_of_fragment h
  have haudio (i : Nat) : RefersTo (";".intercalate (cs.map Clause.text)) i .audio ↔
      HasStream inputs i .audio := refersTo_iff hcs
  have hvideo (i : Nat) : RefersTo (";".intercalate (cs.map Clause.text)) i .video ↔
      joinsVideo inputs = true ∧ i < inputs.length := refersTo_iff hcs
  refine ⟨_, htext, haudio, hvideo, ?_⟩
  constructor
  · intro hall hjoins input hinput
    obtain ⟨i, hi⟩ := List.mem_iff_getElem?.1 hinput
    have hbound : i < inputs.length := (List.getElem?_eq_some_iff.1 hi).1
    obtain ⟨found, hfound, hhas⟩ := hall i .video ((hvideo i).2 ⟨hjoins, hbound⟩)
    obtain rfl := Option.some.inj (hi.symm.trans hfound)
    exact hhas
  · intro hall i kind hrefers
    cases kind with
    | audio => exact (haudio i).1 hrefers
    | video =>
        obtain ⟨hjoins, hbound⟩ := (hvideo i).1 hrefers
        exact ⟨inputs[i], List.getElem?_eq_getElem hbound, hall hjoins _ (List.getElem_mem hbound)⟩

/-- Two inputs with video, of which the second is silent: three references, all to streams. -/
theorem refersTo_of_fragment_two :
    let inputs : List ConcatInput := [⟨⟨"/in/a b.mp4"⟩, true, true⟩, ⟨⟨"/in/b.mp4"⟩, true, false⟩]
    ∃ text graph, fragment inputs (some ⟨1280, 720⟩) (some 25) = .ok text ∧
      text = sources inputs ++ "-filter_complex " ++ graph ++ Composite.mapText (maps inputs) ∧
      RefersTo graph 0 .audio ∧ RefersTo graph 1 .video ∧ ¬ RefersTo graph 1 .audio ∧
      ∀ i kind, RefersTo graph i kind → HasStream inputs i kind := by
  intro inputs
  obtain ⟨text, h⟩ : ∃ text, fragment inputs (some ⟨1280, 720⟩) (some 25) = .ok text := ⟨_, rfl⟩
  obtain ⟨graph, htext, haudio, hvideo, hall⟩ := refersTo_of_fragment h
  refine ⟨text, graph, h, htext, (haudio 0).2 ⟨_, rfl, rfl⟩, (hvideo 1).2 ⟨rfl, by decide⟩, ?_,
    hall.2 (by decide)⟩
  intro hrefers
  obtain ⟨input, hinput, hhas⟩ := (haudio 1).1 hrefers
  cases hinput
  cases hhas

/-- The second input has nothing but sound, and the graph takes its video. -/
theorem refersTo_missing_video :
    let inputs : List ConcatInput := [⟨⟨"/in/a.mp4"⟩, true, true⟩, ⟨⟨"/in/b.mp3"⟩, false, true⟩]
    ∃ text graph, fragment inputs (some ⟨1280, 720⟩) none = .ok text ∧
      text = sources inputs ++ "-filter_complex " ++ graph ++ Composite.mapText (maps inputs) ∧
      RefersTo graph 1 .video ∧ ¬ HasStream inputs 1 .video := by
  intro inputs
  obtain ⟨cs, hcs⟩ : ∃ cs, clauses inputs (some ⟨1280, 720⟩) none = .ok cs := ⟨_, rfl⟩
  refine ⟨_, _, ?_, rfl, (refersTo_iff hcs).2 ⟨rfl, by decide⟩, ?_⟩
  · unfold fragment
    rw [hcs]
    rfl
  · rintro ⟨input, hinput, hhas⟩
    cases hinput
    cases hhas

end Concat

end Montage
