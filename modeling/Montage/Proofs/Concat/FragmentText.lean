import Montage.Proofs.Concat.WrittenPads
import Montage.Proofs.Graph.FilterText

/-!
# The words of a concatenation

The fragment of a concatenation holds one text that others have chosen for each input,
its path. Everything else is inert: numbers, letters, brackets and the names of filters.
So the graph is one word, whatever the numbers are, and what the paths make is all that
can go wrong.
-/

namespace Montage

namespace Pad

theorem isInert_named {name : String} (h : IsInert name) : IsInert (named name).text :=
  (IsInert.append (by decide) h).append (by decide)

theorem isInert_stream (i : Nat) {kind : Char} (h : IsInert kind.toString) :
    IsInert (stream i kind).text :=
  isInert_named (((isInert_toString i).append (by decide)).append h)

theorem isAlphanum_letter (index : Nat) : (letter index).isAlphanum = true := by
  have hcode := toNat_letter index
  rw [isAlphanum_iff]
  omega

theorem isInert_letterName (index : Nat) : IsInert (letterName index) := by
  apply IsNumeral.isInert
  apply isNumeral_of_isAlphanum
  intro c hc
  rw [eq_letter_of_mem hc, isAlphanum_letter]

theorem isInert_row {pads : List Pad} (h : ∀ p ∈ pads, IsInert p.text) : IsInert (row pads) :=
  isInert_join (List.forall_mem_map.2 h)

end Pad

structure Clause.IsInert (c : Clause) : Prop where
  reads : ∀ p ∈ c.reads, Montage.IsInert p.text
  filter : Montage.IsInert c.filter
  writes : ∀ p ∈ c.writes, Montage.IsInert p.text

theorem Clause.IsInert.text {c : Clause} (h : c.IsInert) : Montage.IsInert c.text :=
  ((Pad.isInert_row h.reads).append h.filter).append (Pad.isInert_row h.writes)

namespace Concat

theorem isInert_scaledPad (i : Nat) : IsInert (scaledPad i).text :=
  Pad.isInert_named (Pad.isInert_letterName i)

theorem isInert_silentPad (i : Nat) : IsInert (silentPad i).text :=
  Pad.isInert_named (IsInert.append (by decide) (isInert_toString (i + 1)))

theorem isInert_finalPads {video audio : Bool} : ∀ p ∈ finalPads video audio, IsInert p.text := by
  cases video <;> cases audio <;> decide

theorem isFilterText_fitFilter (size : FrameSize) (rate : Option Float32) :
    IsFilterText (fitFilter size rate) := by
  have hwidth := isFilterText_toString size.width
  have hheight := isFilterText_toString size.height
  have hscale : IsFilterText ("min(" ++ toString size.width ++ "/iw\\," ++ toString size.height ++
      "/ih)") := by
    simp only [isFilterText_append_iff]
    exact ⟨⟨⟨⟨by decide, hwidth⟩, by decide⟩, hheight⟩, by decide⟩
  have haspect := (DecimalLayout.aspect.isNumeral_render .single
    (.ofFloat32 (aspect size))).isFilterText
  have hfilter {fps : String} (h : IsFilterText fps) :=
    ((((((((h.append (by decide : IsFilterText "scale=iw*")).append hscale).append
      (by decide : IsFilterText ":ih*")).append hscale).append (by decide : IsFilterText ",pad=")).append
        hwidth).append (by decide : IsFilterText ":")).append hheight).append
          (by decide : IsFilterText ":(ow-iw)/2:(oh-ih)/2,setdar=")
  unfold fitFilter
  refine (hfilter ?_).append haspect
  split
  · split
    · exact (IsFilterText.append (by decide) (isNumeral_fixed 6 _).isFilterText).append (by decide)
    · decide
  · decide

theorem isFilterText_joinFilter (inputs : List ConcatInput) :
    IsFilterText (joinClause inputs).filter := by
  have hflag (b : Bool) : IsFilterText (if b then "1" else "0") := by cases b <;> decide
  have hlength := isFilterText_toString inputs.length
  unfold joinClause
  simp only [isFilterText_append_iff]
  exact ⟨⟨⟨⟨⟨by decide, hlength⟩, by decide⟩, hflag _⟩, by decide⟩, hflag _⟩

theorem joined_cases {video audio : Bool} {input : ConcatInput} {i : Nat} {p : Pad}
    (h : p ∈ joined video audio input i) : p = scaledPad i ∨ p = .stream i 'a' ∨ p = silentPad i := by
  unfold joined at h
  cases video <;> cases audio <;> cases hhas : input.hasAudio <;> simp [hhas] at h <;> grind

theorem isInert_joined (video audio : Bool) (input : ConcatInput) (i : Nat) :
    ∀ p ∈ joined video audio input i, IsInert p.text := by
  intro p hp
  obtain rfl | rfl | rfl := joined_cases hp
  · exact isInert_scaledPad i
  · exact Pad.isInert_stream i (by decide)
  · exact isInert_silentPad i

theorem isInert_joinClause (inputs : List ConcatInput) : (joinClause inputs).IsInert := by
  refine ⟨?_, (isFilterText_joinFilter inputs).isInert, isInert_finalPads⟩
  intro p hp
  obtain ⟨⟨input, i⟩, _, hp⟩ := List.mem_flatMap.1 hp
  exact isInert_joined _ _ input i p hp

theorem forall_mem_clauses {P : Clause → Prop} {inputs : List ConcatInput} {size : Option FrameSize}
    {rate : Option Float32} {cs : List Clause} (h : clauses inputs size rate = .ok cs)
    (hfit : ∀ frame i, P ⟨[.stream i 'v'], fitFilter frame rate, [scaledPad i]⟩)
    (hsilent : ∀ i, P ⟨[], "aevalsrc=0::d=1", [silentPad i]⟩) (hjoin : P (joinClause inputs)) :
    ∀ c ∈ cs, P c := by
  have hfits (frame : FrameSize) : ∀ c ∈ fitClauses frame rate inputs, P c :=
    List.forall_mem_map.2 fun i _ => hfit frame i
  have hsilents : ∀ c ∈ silentClauses inputs, P c := by
    intro c hc
    obtain ⟨⟨input, i⟩, _, hclause⟩ := List.mem_filterMap.1 hc
    dsimp only at hclause
    split at hclause
    · cases hclause
    · cases hclause
      exact hsilent i
  have heq := eq_of_clauses h
  split at heq
  · obtain ⟨frame, _, rfl⟩ := heq
    rw [List.forall_mem_append, List.forall_mem_append]
    refine ⟨⟨hfits frame, ?_⟩, by simpa using hjoin⟩
    split
    · exact hsilents
    · simp
  · rw [heq]
    simpa using hjoin

theorem isInert_of_mem_clauses {inputs : List ConcatInput} {size : Option FrameSize}
    {rate : Option Float32} {cs : List Clause} (h : clauses inputs size rate = .ok cs) :
    ∀ c ∈ cs, c.IsInert := by
  refine forall_mem_clauses h ?_ ?_ (isInert_joinClause inputs)
  · intro frame i
    exact ⟨by simpa using Pad.isInert_stream i (by decide),
      (isFilterText_fitFilter frame rate).isInert, by simpa using isInert_scaledPad i⟩
  · intro i
    have hfilter : IsInert "aevalsrc=0::d=1" := by decide
    exact ⟨by simp, hfilter, by simpa using isInert_silentPad i⟩

def sources (inputs : List ConcatInput) : String :=
  String.join (inputs.map fun input => "-i " ++ input.path.quoted ++ " ")

def output (inputs : List ConcatInput) (graph out : String) : String :=
  "-filter_complex" ++ " " ++ (graph ++ Composite.mapText (maps inputs) ++ " " ++ out)

/-- The fragment of inputs that are valid: nothing but the paths depends on others. -/
theorem exists_fragment {inputs : List ConcatInput} (hvalid : validate inputs = .ok ())
    (size : FrameSize) (rate : Option Float32) :
    ∃ fragment graph, Concat.fragment inputs (some size) rate = .ok fragment ∧
      IsPlainArgument graph ∧
      ∀ out, fragment ++ " " ++ out = sources inputs ++ output inputs graph out := by
  obtain ⟨cs, hcs⟩ : ∃ cs, clauses inputs (some size) rate = .ok cs := by
    unfold clauses
    rw [hvalid]
    cases joinsVideo inputs <;> exact ⟨_, rfl⟩
  have hjoin : joinClause inputs ∈ cs := by
    have heq := eq_of_clauses hcs
    split at heq
    · obtain ⟨frame, _, rfl⟩ := heq
      simp
    · simp [heq]
  have hmem : 'c' ∈ (";".intercalate (cs.map Clause.text)).toList := by
    apply Text.mem_toList_intercalate (List.mem_map_of_mem hjoin)
    simp [Clause.text, joinClause]
  have hfragment : Concat.fragment inputs (some size) rate = .ok (sources inputs ++
      "-filter_complex " ++ ";".intercalate (cs.map Clause.text) ++
        Composite.mapText (maps inputs)) := by
    unfold Concat.fragment
    rw [hcs]
    rfl
  refine ⟨_, ";".intercalate (cs.map Clause.text), hfragment, ⟨?_, ?_, ?_⟩, ?_⟩
  · exact isInert_intercalate (by decide) (List.forall_mem_map.2 fun c hc =>
      (isInert_of_mem_clauses hcs c hc).text)
  · intro hempty
    rw [hempty] at hmem
    exact absurd hmem (by decide)
  · intro hoption
    rw [hoption] at hmem
    exact absurd hmem (by decide)
  · intro out
    have hoption : "-filter_complex " = "-filter_complex" ++ " " := by decide
    show _ = sources inputs ++
      ("-filter_complex" ++ " " ++ (_ ++ Composite.mapText _ ++ " " ++ out))
    rw [hoption]
    simp only [String.append_assoc]

theorem isPlainArgument_of_mem_maps (inputs : List ConcatInput) :
    ∀ v ∈ maps inputs, IsPlainArgument v := by
  unfold maps
  rw [List.forall_mem_map]
  cases joinsVideo inputs <;> cases joinsAudio inputs <;> decide

def joinWords (inputs : List ConcatInput) (graph : String) : List String :=
  "-filter_complex" :: graph :: (maps inputs).flatMap fun v => ["-map", v]

section

variable {inputs : List ConcatInput} {graph out word : String} {params : Parameters}

theorem isPlainArgument_of_mem_joinWords (inputs : List ConcatInput)
    (hgraph : IsPlainArgument graph) : ∀ w ∈ joinWords inputs graph, IsPlainArgument w := by
  unfold joinWords
  rw [List.forall_mem_cons, List.forall_mem_cons]
  refine ⟨by decide, hgraph, ?_⟩
  intro w hw
  obtain ⟨v, hv, hw⟩ := List.mem_flatMap.1 hw
  rcases List.mem_pair.1 hw with rfl | rfl
  · decide
  · exact isPlainArgument_of_mem_maps inputs w hv

theorem ofLine?_output (hgraph : IsPlainArgument graph)
    {words : List String} (hout : Words.ofLine? out = some words) :
    Words.ofLine? (output inputs graph out) = some (joinWords inputs graph ++ words) := by
  have hfilter : IsInert "-filter_complex" := by decide
  show Words.ofLine? ("-filter_complex" ++ " " ++ _) = _
  rw [Words.ofLine?_append (hfilter.ofLine? (by decide)),
    Composite.ofLine?_mapText hgraph (isPlainArgument_of_mem_maps inputs) hout]
  rfl

theorem inputFiles_joinWords (hgraph : IsPlainArgument graph) :
    Command.inputFiles (Template.arguments params (joinWords inputs graph ++ [word])) = [] := by
  have hwords := isPlainArgument_of_mem_joinWords inputs hgraph
  rw [Template.arguments_append, Template.arguments_of_isPlainArgument hwords,
    Command.inputFiles_append_of_not_mem fun hmem => (hwords _ hmem).2.2 rfl]
  exact Command.inputFiles_of_length_le_one (List.length_filter_le _ _)

theorem sources_cons (input : ConcatInput) (inputs : List ConcatInput) (rest : String) :
    sources (input :: inputs) ++ rest =
      "-i" ++ " " ++ (input.path.quoted ++ " " ++ (sources inputs ++ rest)) := by
  simp [sources, ← String.toList_inj]

theorem exists_words_of_isQuotable (params : Parameters) {words : List String} {rest : String}
    (h : ∀ input ∈ inputs, input.path.IsQuotable ∧ Template.IsLiteral input.path.text ∧
      Text.isBlankText input.path.text = false)
    (hrest : Words.ofLine? rest = some words) :
    ∃ all, Words.ofLine? (sources inputs ++ rest) = some all ∧
      Command.inputFiles (Template.arguments params all) =
        inputs.map (·.path.text) ++ Command.inputFiles (Template.arguments params words) := by
  induction inputs with
  | nil => exact ⟨words, by simpa [sources] using hrest, rfl⟩
  | cons input inputs ih =>
    obtain ⟨all, hall, hfiles⟩ := ih fun i hi => h i (List.mem_cons_of_mem _ hi)
    obtain ⟨hquotable, hliteral, hblank⟩ := h input List.mem_cons_self
    have hne := Text.ne_empty_of_not_isBlankText hblank
    have hoption : IsInert "-i" := by decide
    refine ⟨"-i" :: input.path.text :: all, ?_, ?_⟩
    · rw [sources_cons, Words.ofLine?_append (hoption.ofLine? (by decide)),
        Words.ofLine?_append (hquotable.ofLine? hne), hall]
      rfl
    · rw [Template.arguments_cons (hoption.substitute params) (by decide),
        Template.arguments_cons (Template.substitute_of_isLiteral hliteral params) hblank,
        Command.inputFiles, hfiles]
      rfl

theorem exists_option (inputs : List ConcatInput) {name : String} (hname : IsInert name)
    (rest : String) : ∃ next behind, IsInert next ∧
      sources inputs ++ ("-" ++ name ++ " " ++ rest) = "-" ++ next ++ " " ++ behind := by
  cases inputs with
  | nil => exact ⟨name, rest, hname, by simp [sources]⟩
  | cons input inputs => exact ⟨"i", _, by decide, sources_cons _ _ _⟩

/-- The first path that is not quotable is missed. -/
theorem isQuotable_of_inputFiles {words : List String} {name rest : String}
    (h : ∀ input ∈ inputs, '#' ∉ input.path.text.toList ∧
      Text.isBlankText input.path.text = false)
    (hname : IsInert name)
    (hwords : Words.ofLine? (sources inputs ++ ("-" ++ name ++ " " ++ rest)) = some words)
    (hfiles : Command.inputFiles (Template.arguments params words) = inputs.map (·.path.text)) :
    ∀ input ∈ inputs, input.path.IsQuotable := by
  induction inputs generalizing words with
  | nil => simp
  | cons input inputs ih =>
    obtain ⟨hhash, hblank⟩ := h input List.mem_cons_self
    have hoption : IsInert "-i" := by decide
    rw [sources_cons, Words.ofLine?_append (hoption.ofLine? (by decide))] at hwords
    obtain ⟨later, hlater, rfl⟩ := Option.map_eq_some_iff.1 hwords
    rw [List.singleton_append, Template.arguments_cons (hoption.substitute params) (by decide)]
      at hfiles
    have hfirst : (Template.arguments params later).head? = some input.path.text := by
      cases harguments : Template.arguments params later with
      | nil =>
        rw [harguments] at hfiles
        cases hfiles
      | cons a rest =>
        rw [harguments, Command.inputFiles, List.map_cons] at hfiles
        rw [List.head?_cons, (List.cons.inj hfiles).1]
    have hquotable : input.path.IsQuotable := by
      by_contra hnot
      obtain ⟨next, behind, hnext, hline⟩ := exists_option inputs hname rest
      rw [hline] at hlater
      exact Path.head?_arguments_ne hnot hhash hnext hlater hfirst
    have hne := Text.ne_empty_of_not_isBlankText hblank
    rw [Words.ofLine?_append (hquotable.ofLine? hne)] at hlater
    obtain ⟨others, hothers, rfl⟩ := Option.map_eq_some_iff.1 hlater
    have hliteral := Template.substitute_of_isLiteral (Template.isLiteral_of_not_mem hhash) params
    rw [List.singleton_append, Template.arguments_cons hliteral hblank, Command.inputFiles,
      List.map_cons] at hfiles
    have hrest := ih (fun i hi => h i (List.mem_cons_of_mem _ hi)) hothers
      (List.cons.inj hfiles).2
    exact List.forall_mem_cons.2 ⟨hquotable, hrest⟩

end

end Concat

end Montage
