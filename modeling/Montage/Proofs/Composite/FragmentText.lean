import Montage.Proofs.Graph.FilterText

/-!
# The words of a composite

A composite holds three texts that others have chosen: the path of its upper track, the
path of its watermark, and the colour of its background. Its graph has the last two in it,
and everything else there is a filter or a pad. So the graph is one word as far as the path
of the watermark is (`tokenize_fragment`): that path is not put in quotes, and a blank in
it cuts the graph in pieces (`tokenize_blank_watermark`).
-/

namespace Montage

namespace Words

def IsBareChar (c : Char) : Prop := Text.isBlank c = false ∧ c ≠ '\'' ∧ c ≠ '"'

instance (c : Char) : Decidable (IsBareChar c) := inferInstanceAs (Decidable (_ ∧ _ ∧ _))

end Words

theorem IsInert.isBareChar {s : String} (h : IsInert s) : ∀ c ∈ s.toList, Words.IsBareChar c :=
  fun c hc => ⟨(h c hc).1, (h c hc).2.1, (h c hc).2.2.1⟩

namespace Composite

open Words

/-- Where the texts of others have no quotes, and the colour has no blank either. -/
structure HasPlainTexts (c : Composite) : Prop where
  upper : ∀ track ∈ c.upper, track.path.IsQuotable ∧ track.path.text ≠ ""
  watermark : ∀ mark ∈ c.watermark, IsUnquoted mark.path.text
  background : ∀ d ∈ c.background.toList, IsBareChar d

variable {c : Composite}

/-- A character of the graph, if the colour is plain: it means nothing in a command line,
or it comes from the path of the watermark. -/
def IsGraphChar (c : Composite) (d : Char) : Prop :=
  IsBareChar d ∨ ∃ mark ∈ c.watermark, d ∈ mark.path.text.toList

theorem isInert_position (l : Layout) : IsInert l.position :=
  ((isFilterText_toString_int l.x).append (by decide) |>.append
    (isFilterText_toString_int l.y)).isInert

theorem isInert_arguments (s : FrameSize) : IsInert s.arguments :=
  ((isFilterText_toString s.width).append (by decide) |>.append
    (isFilterText_toString s.height)).isInert

theorem isInert_tracksPad (c : Composite) : IsInert c.tracksPad.text := by
  unfold tracksPad
  split <;> decide

theorem isBareChar_lowerFilter (h : ∀ d ∈ c.background.toList, IsBareChar d) :
    ∀ d ∈ c.lowerFilter.toList, IsBareChar d := by
  have hfront : IsInert ("scale=" ++ c.lower.layout.size.arguments ++ ",pad=" ++
      c.output.arguments ++ ":" ++ c.lower.layout.position ++ ":") := by
    simp only [isInert_append_iff]
    exact ⟨⟨⟨⟨⟨⟨by decide, isInert_arguments _⟩, by decide⟩, isInert_arguments _⟩, by decide⟩,
      isInert_position _⟩, by decide⟩
  have htext : c.lowerFilter.toList = ("scale=" ++ c.lower.layout.size.arguments ++ ",pad=" ++
      c.output.arguments ++ ":" ++ c.lower.layout.position ++ ":").toList ++ c.background.toList :=
    String.toList_append
  rw [htext, List.forall_mem_append]
  exact ⟨hfront.isBareChar, h⟩

theorem forall_mem_text {P : Char → Prop} {clause : Clause}
    (hpads : ∀ p ∈ clause.pads, IsInert p.text) (hinert : ∀ d, IsBareChar d → P d)
    (hfilter : ∀ d ∈ clause.filter.toList, P d) : ∀ d ∈ clause.text.toList, P d := by
  have hrow {pads : List Pad} (h : ∀ p ∈ pads, p ∈ clause.pads) :
      ∀ d ∈ (Pad.row pads).toList, P d := fun d hd =>
    hinert d ((isInert_join (List.forall_mem_map.2 fun p hp => hpads p (h p hp))).isBareChar d hd)
  rw [Clause.text, String.toList_append, String.toList_append, List.forall_mem_append,
    List.forall_mem_append]
  exact ⟨⟨hrow fun p hp => List.mem_append_left _ hp, hfilter⟩,
    hrow fun p hp => List.mem_append_right _ hp⟩

/-- A clause with inert pads whose filter is plain, but for the path of the watermark. -/
theorem isGraphChar_of_mem_text {clause : Clause} (hpads : ∀ p ∈ clause.pads, IsInert p.text)
    (hfilter : ∀ d ∈ clause.filter.toList, c.IsGraphChar d) :
    ∀ d ∈ clause.text.toList, c.IsGraphChar d :=
  forall_mem_text hpads (fun _ => Or.inl) hfilter

theorem isGraphChar_of_isInert {s : String} (h : IsInert s) : ∀ d ∈ s.toList, c.IsGraphChar d :=
  fun d hd => Or.inl (h.isBareChar d hd)

theorem isGraphChar_trackClauses (h : ∀ d ∈ c.background.toList, IsBareChar d) :
    ∀ clause ∈ c.trackClauses, ∀ d ∈ clause.text.toList, c.IsGraphChar d := by
  have hlower : ∀ d ∈ c.lowerFilter.toList, c.IsGraphChar d := fun d hd =>
    Or.inl (isBareChar_lowerFilter h d hd)
  have hpad := c.isInert_tracksPad
  have hin : IsInert (Pad.named "in").text := by decide
  have hlower' : IsInert (Pad.named "lower").text := by decide
  have hupper' : IsInert (Pad.named "upper").text := by decide
  have hfirst : IsInert (Pad.stream 0 'v').text := by decide
  have hsecond : IsInert (Pad.stream 1 'v').text := by decide
  unfold trackClauses
  cases c.upper with
  | none =>
    rw [List.forall_mem_singleton]
    exact isGraphChar_of_mem_text (by simp [Clause.pads, hin, hpad]) hlower
  | some upper =>
    have hscale : IsInert ("scale=" ++ upper.layout.size.arguments) :=
      IsInert.append (by decide) (isInert_arguments _)
    have hoverlay : IsInert ("overlay=" ++ upper.layout.position) :=
      IsInert.append (by decide) (isInert_position _)
    rw [List.forall_mem_cons, List.forall_mem_cons, List.forall_mem_singleton]
    refine ⟨?_, ?_, ?_⟩
    · exact isGraphChar_of_mem_text (by simp [Clause.pads, hfirst, hlower']) hlower
    · exact isGraphChar_of_mem_text (by simp [Clause.pads, hsecond, hupper'])
        (isGraphChar_of_isInert hscale)
    · exact isGraphChar_of_mem_text (by simp [Clause.pads, hlower', hupper', hpad])
        (isGraphChar_of_isInert hoverlay)

theorem isGraphChar_watermarkClauses (c : Composite) :
    ∀ clause ∈ c.watermarkClauses, ∀ d ∈ clause.text.toList, c.IsGraphChar d := by
  have hpad := c.isInert_tracksPad
  have hwatermark : IsInert (Pad.named "watermark").text := by decide
  have hout : IsInert outPad.text := by decide
  have hmovie : IsInert "movie=" := by decide
  unfold watermarkClauses
  cases hmark : c.watermark with
  | none => simp
  | some mark =>
    have hoverlay : IsInert ("overlay=" ++ mark.layout.position) :=
      IsInert.append (by decide) (isInert_position _)
    rw [List.forall_mem_cons, List.forall_mem_singleton]
    constructor
    · refine isGraphChar_of_mem_text (by simp [Clause.pads, hwatermark]) ?_
      rw [String.toList_append, List.forall_mem_append]
      exact ⟨isGraphChar_of_isInert hmovie, fun d hd => Or.inr ⟨mark, hmark, hd⟩⟩
    · exact isGraphChar_of_mem_text (by simp [Clause.pads, hpad, hwatermark, hout])
        (isGraphChar_of_isInert hoverlay)

theorem isGraphChar_mixClauses (c : Composite) :
    ∀ clause ∈ c.mixClauses, ∀ d ∈ clause.text.toList, c.IsGraphChar d := by
  have hmix : IsInert (Clause.mk [.stream 0 'a', .stream 1 'a'] "amix=inputs=2"
      [.named "aout"]).text := by decide
  unfold mixClauses
  split
  · split
    · rw [List.forall_mem_singleton]
      exact isGraphChar_of_isInert hmix
    · simp
  · simp

theorem isGraphChar_graph (h : ∀ d ∈ c.background.toList, IsBareChar d) :
    ∀ d ∈ c.graph.toList, c.IsGraphChar d := by
  refine Text.forall_mem_intercalate (fun d hd => Or.inl ?_) (List.forall_mem_map.2 ?_)
  · have hseparator : IsInert ";" := by decide
    exact hseparator.isBareChar d hd
  · rw [clauses, List.forall_mem_append, List.forall_mem_append]
    exact ⟨⟨isGraphChar_trackClauses h, c.isGraphChar_watermarkClauses⟩, c.isGraphChar_mixClauses⟩

theorem mem_graph_of_mem_watermark {mark : Watermark} (h : mark ∈ c.watermark) {d : Char}
    (hd : d ∈ mark.path.text.toList) : d ∈ c.graph.toList := by
  have hclause : (⟨[], "movie=" ++ mark.path.text, [.named "watermark"]⟩ : Clause) ∈ c.clauses := by
    rw [clauses, List.mem_append, List.mem_append, watermarkClauses, h]
    exact Or.inl (Or.inr List.mem_cons_self)
  apply Text.mem_toList_intercalate (List.mem_map_of_mem hclause)
  simp [Clause.text, hd]

theorem graph_ne_empty (c : Composite) : c.graph ≠ "" := by
  obtain ⟨clause, hclause, hread⟩ : ∃ clause ∈ c.clauses, '[' ∈ clause.text.toList := by
    unfold clauses trackClauses
    cases c.upper <;> exact ⟨_, List.mem_append_left _ (List.mem_append_left _ List.mem_cons_self),
      by simp [Clause.text, Pad.row, Pad.named, Pad.stream]⟩
  intro hempty
  have hmem : '[' ∈ c.graph.toList := Text.mem_toList_intercalate (List.mem_map_of_mem hclause) hread
  rw [hempty] at hmem
  simp at hmem

def frontWords (c : Composite) : List String :=
  match c.upper with
  | none => ["-filter:v"]
  | some upper => ["-i", upper.path.text, "-filter_complex"]

def mapWords (c : Composite) : List String := c.maps.flatMap fun v => ["-map", v]

theorem isPlainArgument_of_mem_maps (c : Composite) : ∀ v ∈ c.maps, IsPlainArgument v := by
  have hplain : IsPlainArgument outPad.text ∧ IsPlainArgument "[aout]" ∧ IsPlainArgument "0:a" ∧
      IsPlainArgument "1:a" := by decide
  unfold maps
  cases c.upper with
  | none => simp
  | some upper =>
    cases hlower : c.lower.hasAudio <;> cases hupper : upper.hasAudio <;> simp [hplain, hupper]

theorem HasPlainTexts.isUnquoted_graph (h : c.HasPlainTexts) : IsUnquoted c.graph := by
  have hquote {d : Char} (hd : d = '\'' ∨ d = '"') : d ∉ c.graph.toList := by
    intro hmem
    rcases isGraphChar_graph h.background d hmem with hbare | ⟨mark, hmark, hpath⟩
    · exact hd.elim hbare.2.1 hbare.2.2
    · rcases hd with rfl | rfl
      · exact (h.watermark mark hmark).1 hpath
      · exact (h.watermark mark hmark).2 hpath
  exact ⟨hquote (Or.inl rfl), hquote (Or.inr rfl)⟩

/-- The graph is one word exactly if the path of the watermark has no blank. -/
theorem HasPlainTexts.splitLoose_graph_iff (h : c.HasPlainTexts) :
    splitLoose c.graph = [c.graph] ↔
      ∀ mark ∈ c.watermark, ∀ d ∈ mark.path.text.toList, Text.isBlank d = false := by
  rw [splitLoose_eq_singleton_iff h.isUnquoted_graph c.graph_ne_empty]
  constructor
  · intro hall mark hmark d hd
    exact hall d (mem_graph_of_mem_watermark hmark hd)
  · intro hall d hd
    rcases isGraphChar_graph h.background d hd with hbare | ⟨mark, hmark, hpath⟩
    · exact hbare.1
    · exact hall mark hmark d hpath

/-- The fragment is read part by part: the options, the path of the upper track in its
quotes, and the graph as it stands. -/
theorem ofLine?_fragment {text : String} (h : c.fragment = .ok text) (htexts : c.HasPlainTexts) :
    ofLine? text = some (c.frontWords ++ splitLoose c.graph ++ c.mapWords) := by
  have hgraph := ofLine?_of_isUnquoted htexts.isUnquoted_graph
  unfold fragment at h
  unfold frontWords mapWords
  split at h
  · cases h
  · split at h
    · cases h
    · cases hupper : c.upper with
      | none =>
        simp only [hupper] at h
        cases h
        have hfilter : IsInert "-filter:v" := by decide
        have hsplit : "-filter:v " ++ c.graph = "-filter:v" ++ " " ++ c.graph := by simp
        rw [hsplit, ofLine?_append (hfilter.ofLine? (by decide)), hgraph]
        simp [maps, hupper]
      | some upper =>
        simp only [hupper] at h
        cases h
        obtain ⟨hquotable, hne⟩ := htexts.upper upper hupper
        have hinput : IsInert "-i" := by decide
        have hfilter : IsInert "-filter_complex" := by decide
        have hline : ofLine? ("-i" ++ " " ++ (upper.path.quoted ++ " " ++
            ("-filter_complex" ++ " " ++ c.graph))) =
              some (["-i", upper.path.text, "-filter_complex"] ++ splitLoose c.graph) := by
          rw [ofLine?_append (hinput.ofLine? (by decide)),
            ofLine?_append (hquotable.ofLine? hne),
            ofLine?_append (hfilter.ofLine? (by decide)), hgraph]
          rfl
        have htext : "-i " ++ upper.path.quoted ++ " -filter_complex " ++ c.graph =
            "-i" ++ " " ++ (upper.path.quoted ++ " " ++ ("-filter_complex" ++ " " ++ c.graph)) := by
          simp [← String.toList_inj]
        rw [htext, ofLine?_append_mapText hline c.isPlainArgument_of_mem_maps]

/-- A fragment is read as its options, the words of its graph and its maps. The graph is
one of these words exactly if the path of the watermark has no blank. -/
theorem tokenize_fragment {text : String} (h : c.fragment = .ok text)
    (htexts : c.HasPlainTexts) :
    tokenize text = .ok (c.frontWords ++ splitLoose c.graph ++ c.mapWords) ∧
      (tokenize text = .ok (c.frontWords ++ [c.graph] ++ c.mapWords) ↔
        ∀ mark ∈ c.watermark, ∀ d ∈ mark.path.text.toList, Text.isBlank d = false) := by
  have hwords := tokenize_eq_ok_iff.2 (ofLine?_fragment h htexts)
  refine ⟨hwords, ?_⟩
  rw [hwords, ← htexts.splitLoose_graph_iff, Except.ok.injEq, List.append_left_inj,
    List.append_right_inj]

def markedTalk (slides mark : Path) : Composite where
  output := ⟨1920, 1080⟩
  lower := ⟨⟨"/in/talk.mp4"⟩, ⟨0, 180, ⟨1280, 720⟩⟩, true⟩
  upper := some ⟨slides, ⟨1280, 0, ⟨640, 360⟩⟩, false⟩
  watermark := some ⟨mark, ⟨20, 20, ⟨100, 50⟩⟩⟩
  background := "black"

theorem hasPlainTexts_markedTalk {slides mark : Path} (hslides : slides.IsQuotable)
    (hne : slides.text ≠ "") (hmark : IsUnquoted mark.text) :
    (markedTalk slides mark).HasPlainTexts := by
  have hblack : IsInert "black" := by decide
  refine ⟨?_, ?_, hblack.isBareChar⟩
  · simp [markedTalk, hslides, hne]
  · simp [markedTalk, hmark]

/-- Blanks in the path of the upper track do no harm. -/
theorem tokenize_blank_slides :
    let c := markedTalk ⟨"/in/my slides.mp4"⟩ ⟨"/in/logo.png"⟩
    ∃ text, c.fragment = .ok text ∧ c.HasPlainTexts ∧
      tokenize text = .ok ["-i", "/in/my slides.mp4", "-filter_complex", c.graph,
        "-map", "[out]", "-map", "0:a"] := by
  intro c
  have htexts : c.HasPlainTexts := hasPlainTexts_markedTalk (by decide) (by decide) (by decide)
  have hfragment : c.fragment = .ok ("-i '/in/my slides.mp4' -filter_complex " ++ c.graph ++
      mapText c.maps) := by
    rfl
  have hmark : IsInert "/in/logo.png" := by decide
  refine ⟨_, hfragment, htexts, (tokenize_fragment hfragment htexts).2.2 ?_⟩
  simp only [c, markedTalk, Option.mem_some_iff, forall_eq']
  exact fun d hd => (hmark.isBareChar d hd).1

/-- A blank in the path of the mark cuts the graph in two. -/
theorem tokenize_blank_watermark :
    let c := markedTalk ⟨"/in/slides.mp4"⟩ ⟨"/in/my logo.png"⟩
    ∃ text, c.fragment = .ok text ∧
      tokenize text = .ok ["-i", "/in/slides.mp4", "-filter_complex",
        "[0:v]scale=1280:720,pad=1920:1080:0:180:black[lower];[1:v]scale=640:360[upper];" ++
          "[lower][upper]overlay=1280:0[video];movie=/in/my",
        "logo.png[watermark];[video][watermark]overlay=20:20[out]",
        "-map", "[out]", "-map", "0:a"] ∧
      tokenize text ≠ .ok (c.frontWords ++ [c.graph] ++ c.mapWords) := by
  intro c
  have htexts : c.HasPlainTexts := hasPlainTexts_markedTalk (by decide) (by decide) (by decide)
  have hfragment : c.fragment = .ok ("-i /in/slides.mp4 -filter_complex " ++ c.graph ++
      mapText c.maps) := by
    rfl
  have hwords := tokenize_eq_ok_iff.2 (ofLine?_fragment hfragment htexts)
  have hgraph : splitLoose c.graph =
      ["[0:v]scale=1280:720,pad=1920:1080:0:180:black[lower];[1:v]scale=640:360[upper];" ++
          "[lower][upper]overlay=1280:0[video];movie=/in/my",
        "logo.png[watermark];[video][watermark]overlay=20:20[out]"] := by
    decide +kernel
  rw [hgraph] at hwords
  refine ⟨_, hfragment, hwords, ?_⟩
  rw [hwords]
  intro hsame
  have hlength := congrArg List.length (Except.ok.inj hsame)
  simp at hlength

end Composite

end Montage
