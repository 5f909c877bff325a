import Montage.Engine.Edit
import Montage.Proofs.Clip.EditGraph
import Montage.Proofs.Clip.Sanitize
import Montage.Proofs.Output.FanOut
import Montage.Proofs.Output.Wiring

/-!
# The graph of an edit and its outputs

An edit leaves a pad open for each kind of stream, and the wiring of the outputs
starts from these pads. Threaded one behind the other they use up every pad that
they write, except those that the outputs take with `-map`.

The pads have three origins: the cut, the sound of the outputs and their video.
`EditPad.outputKind?` tells the origins apart, so no pad is written in two of
them. `FeedsOutputs` collects what follows for the graph and the words behind
`-map`, and `feedsOutputs_of_plan` proves it for every edit that can be compiled,
with or without cuts and with any profiles.
-/

namespace Montage

theorem Command.arguments_foldl_input (command : Command) (paths : List Path) :
    (paths.foldl input command).arguments =
      command.arguments ++ paths.flatMap fun path => ["-i", path.text] := by
  induction paths generalizing command with
  | nil => simp
  | cons path paths ih =>
      rw [List.foldl_cons, ih]
      simp [input, append]

namespace EditRequest

def Plan.clauses (plan : Plan) : List Clause := plan.cut.clauses ++ plan.outputs.clauses

def kinds (request : EditRequest) : List StreamKind :=
  (if request.video then [.video] else []) ++ if request.audio then [.audio] else []

/-- The graph of an edit feeds `count` outputs, of which output `i` takes `values kind i`. -/
structure Plan.FeedsOutputs (plan : Plan) (kinds : List StreamKind) {count : Nat}
    (values : StreamKind → Fin count → String) : Prop where
  wired : Wired plan.clauses (FanOut.mapped kinds values)
  /-- Every output takes a pad of its own. -/
  distinct : ∀ kind ∈ kinds, Function.Injective (values kind)
  /-- A split announces as many pads as it has. -/
  split : ∀ kind c, (plan.outputs.wiringOf kind).split = some c →
    c.filter = kind.mark ++ "split=" ++ toString count ∧ c.writes.length = count
  /-- The text of the graph says the same. -/
  text : (∀ c ∈ plan.outputs.audio.filters ++ plan.outputs.video.filters, IsPlain c.filter) →
    (plan.graph.text? = none ↔ plan.clauses = []) ∧
      ∀ text, plan.graph.text? = some text →
        Text.split ';' text = plan.clauses.map Clause.text ∧ ∀ c ∈ plan.clauses, c.IsLegible

theorem ne_nil_of_clipsOfEdits {inputs transition : Nat} {edits : List Nat}
    {clips : List (Clip Float)} (h : clipsOfEdits inputs transition edits = .ok clips) :
    clips ≠ [] := by
  unfold clipsOfEdits at h
  dsimp only at h
  split at h
  · cases h
  split at h
  · cases h
  · exact (Clip.of_sanitize_eq_ok h).1

/-- Without edits the streams of the input are taken; else some clips are cut. -/
theorem cut_cases {request : EditRequest} {transition : Nat} {cut : Cut}
    (h : request.cut transition = .ok cut) :
    cut = ⟨[], request.padsOf fun kind => .stream 0 kind.letter⟩ ∨
      ∃ clips fade, clips ≠ [] ∧
        cut = ⟨Clip.editGraph clips fade request.video request.audio,
          request.padsOf StreamKind.editPad⟩ := by
  unfold EditRequest.cut at h
  cases hedits : request.edits with
  | none =>
      rw [hedits] at h
      exact Or.inl (pure_eq_ok_iff.1 h).symm
  | some edits =>
      rw [hedits] at h
      obtain ⟨clips, hclips, h⟩ := bind_eq_ok_iff.1 h
      exact Or.inr ⟨clips, _, ne_nil_of_clipsOfEdits hclips, (pure_eq_ok_iff.1 h).symm⟩

theorem toList_padsOf (request : EditRequest) (pad : StreamKind → Pad) :
    (request.padsOf pad).toList = (Clip.streamKinds request.video request.audio).map pad := by
  unfold padsOf Clip.streamKinds StreamPads.toList
  cases request.video <;> cases request.audio <;> rfl

theorem present_of_cut {request : EditRequest} {transition : Nat} {cut : Cut}
    (h : request.cut transition = .ok cut) : cut.pads.present = request.kinds := by
  have hpads (pad : StreamKind → Pad) : (request.padsOf pad).present = request.kinds := by
    unfold padsOf kinds StreamPads.present
    cases request.video <;> cases request.audio <;> rfl
  rcases cut_cases h with rfl | ⟨_, _, _, rfl⟩ <;> exact hpads _

theorem threads_cut {request : EditRequest} {transition : Nat} {cut : Cut}
    (h : request.cut transition = .ok cut) :
    ∃ start : Multiset Pad, (∀ p ∈ start, p.IsSource) ∧
      Threads start cut.clauses (cut.pads.toList : List Pad) := by
  rcases cut_cases h with rfl | ⟨clips, fade, hclips, rfl⟩
  · refine ⟨_, ?_, Threads.nil _⟩
    intro p hp
    rw [toList_padsOf] at hp
    obtain ⟨kind, _, rfl⟩ := List.mem_map.1 hp
    exact Pad.isSource_stream 0 kind
  · refine ⟨0, by simp, ?_⟩
    rw [toList_padsOf]
    exact Clip.threads_editGraph hclips fade request.video request.audio

theorem exists_keys_cut {request : EditRequest} {transition : Nat} {cut : Cut}
    (h : request.cut transition = .ok cut) :
    ∃ keys : List EditPad, cut.clauses.flatMap Clause.writes = keys.map EditPad.toPad ∧
      keys.Nodup ∧ ∀ k ∈ keys, k.outputKind? = none := by
  rcases cut_cases h with rfl | ⟨clips, fade, hclips, rfl⟩
  · exact ⟨[], rfl, List.nodup_nil, by simp⟩
  · exact ⟨_, Clip.writes_editGraph hclips fade request.video request.audio,
      Clip.nodup_writtenPads _ (Clip.nodup_streamKinds _ _),
      fun k hk => Clip.outputKind?_of_mem_writtenPads hk⟩

theorem isPlain_cut {request : EditRequest} {transition : Nat} {cut : Cut}
    (h : request.cut transition = .ok cut) :
    (∀ c ∈ cut.clauses, c.IsPlain) ∧ ∀ p ∈ cut.pads.toList, p.IsNamed := by
  rcases cut_cases h with rfl | ⟨clips, fade, hclips, rfl⟩
  · refine ⟨by simp, ?_⟩
    intro p hp
    rw [toList_padsOf] at hp
    obtain ⟨kind, _, rfl⟩ := List.mem_map.1 hp
    exact Pad.isNamed_stream 0 kind
  · refine ⟨Clip.isPlain_of_mem_editGraph, ?_⟩
    intro p hp
    rw [toList_padsOf] at hp
    obtain ⟨kind, _, rfl⟩ := List.mem_map.1 hp
    rw [← EditPad.toPad_edit]
    exact EditPad.isNamed_toPad _

/-- The steps by which an edit is planned. -/
theorem plan_eq_ok_iff {site : Site} {ids : Nat → String} {request : EditRequest}
    {profiles : List Profile} {plan : Plan} :
    request.plan site ids profiles = .ok plan ↔
      ∃ first params, request.inputs.head? = some first ∧
        (request.edits.isNone && !request.inputs.tail.isEmpty) = false ∧
        profiles.isEmpty = false ∧
        request.cut (request.transitionIn site.settings) = .ok plan.cut ∧
        parameters site first = .ok params ∧
        FanOut.build ids profiles params plan.cut.pads = .ok plan.outputs ∧
        request.inputs.mapM (MediaFile.absolute site.cwd) = .ok plan.inputs := by
  unfold EditRequest.plan
  cases hinputs : request.inputs with
  | nil =>
      constructor
      · intro h
        cases h
      · rintro ⟨_, _, h, _⟩
        cases h
  | cons first others =>
      by_cases hseveral : (request.edits.isNone && !others.isEmpty) = true
      · simp [hseveral, bind, Except.bind, throw, throwThe, MonadExceptOf.throw]
      by_cases hprofiles : profiles.isEmpty = true
      · simp [hseveral, hprofiles, bind, Except.bind, throw, throwThe, MonadExceptOf.throw]
      rw [Bool.not_eq_true] at hseveral hprofiles
      simp only [hseveral, hprofiles]
      constructor
      · intro h
        obtain ⟨cut, hcut, h⟩ := bind_eq_ok_iff.1 h
        obtain ⟨params, hparams, h⟩ := bind_eq_ok_iff.1 h
        obtain ⟨outputs, houtputs, h⟩ := bind_eq_ok_iff.1 h
        obtain ⟨inputs, hall, h⟩ := bind_eq_ok_iff.1 h
        cases h
        exact ⟨first, params, rfl, hseveral, trivial, hcut, hparams, houtputs, hall⟩
      · rintro ⟨_, params, hfirst, _, _, hcut, hparams, houtputs, hall⟩
        obtain rfl := Option.some.inj hfirst
        exact bind_eq_ok_iff.2 ⟨_, hcut, bind_eq_ok_iff.2 ⟨_, hparams,
          bind_eq_ok_iff.2 ⟨_, houtputs, bind_eq_ok_iff.2 ⟨_, hall, rfl⟩⟩⟩⟩

theorem exists_of_plan {site : Site} {ids : Nat → String} {request : EditRequest}
    {profiles : List Profile} {plan : Plan} (h : request.plan site ids profiles = .ok plan) :
    ∃ first params, request.inputs.head? = some first ∧ parameters site first = .ok params ∧
      request.cut (request.transitionIn site.settings) = .ok plan.cut ∧
        FanOut.build ids profiles params plan.cut.pads = .ok plan.outputs := by
  obtain ⟨first, params, hfirst, _, _, hcut, hparams, houtputs, _⟩ := plan_eq_ok_iff.1 h
  exact ⟨first, params, hfirst, hparams, hcut, houtputs⟩

section Planned

variable {site : Site} {ids : Nat → String} {request : EditRequest} {profiles : List Profile}
  {plan : Plan} {params : Parameters} {roles : FanOut.Roles} {cs : List Contribution}
  {transition : Nat}

/-- The whole graph: the cut, the sound of the outputs, and their video. -/
theorem threads_plan (hcut : request.cut transition = .ok plan.cut)
    (h : FanOut.Assembled ids params plan.cut.pads roles cs plan.outputs) :
    ∃ start : Multiset Pad, (∀ p ∈ start, p.IsSource) ∧
      Threads start plan.clauses
        (FanOut.encodedPads plan.cut.pads .video (FanOut.active cs) ++
          FanOut.encodedPads plan.cut.pads .audio (FanOut.active cs) : List Pad) := by
  obtain ⟨start, hstart, hthreads⟩ := threads_cut hcut
  have haudio := (FanOut.threads_wiring plan.cut.pads .audio (FanOut.active cs)).frame
    (plan.cut.pads.video.toList : List Pad)
  have hvideo := (FanOut.threads_wiring plan.cut.pads .video (FanOut.active cs)).frame
    (FanOut.encodedPads plan.cut.pads .audio (FanOut.active cs) : List Pad)
  rw [add_comm, add_comm (FanOut.encodedPads plan.cut.pads .audio _ : Multiset Pad)] at haudio
  refine ⟨start, hstart, hthreads.append ?_⟩
  rw [FanOut.clauses, h.audio_eq, h.video_eq]
  exact haudio.append hvideo

theorem exists_keys_plan (hcut : request.cut transition = .ok plan.cut)
    (h : FanOut.Assembled ids params plan.cut.pads roles cs plan.outputs) :
    ∃ keys : List EditPad,
      (plan.clauses.flatMap Clause.writes).Perm (keys.map EditPad.toPad) ∧ keys.Nodup := by
  obtain ⟨cutKeys, hcutKeys, hcutNodup, hcutKind⟩ := exists_keys_cut hcut
  obtain ⟨audioKeys, haudioKeys, haudioNodup, haudioKind⟩ :=
    FanOut.exists_keys_wiring plan.cut.pads .audio (FanOut.active cs)
  obtain ⟨videoKeys, hvideoKeys, hvideoNodup, hvideoKind⟩ :=
    FanOut.exists_keys_wiring plan.cut.pads .video (FanOut.active cs)
  refine ⟨cutKeys ++ (audioKeys ++ videoKeys), ?_, ?_⟩
  · rw [Plan.clauses, FanOut.clauses, List.flatMap_append, List.flatMap_append, h.audio_eq,
      h.video_eq, hcutKeys, List.map_append, List.map_append]
    exact (haudioKeys.append hvideoKeys).append_left _
  · rw [List.nodup_append', List.nodup_append']
    refine ⟨hcutNodup, ⟨haudioNodup, hvideoNodup, ?_⟩, ?_⟩
    · intro k haudio hvideo
      have hkind := (haudioKind k haudio).symm.trans (hvideoKind k hvideo)
      cases hkind
    · intro k hcut houtput
      rcases List.mem_append.1 houtput with haudio | hvideo
      · have hkind := (hcutKind k hcut).symm.trans (haudioKind k haudio)
        cases hkind
      · have hkind := (hcutKind k hcut).symm.trans (hvideoKind k hvideo)
        cases hkind

theorem wired_plan (hcut : request.cut transition = .ok plan.cut)
    (h : FanOut.Assembled ids params plan.cut.pads roles cs plan.outputs) :
    Wired plan.clauses
      (FanOut.mapped plan.cut.pads.present
        (FanOut.outputValue plan.cut.pads (FanOut.active cs))) := by
  obtain ⟨start, hstart, hthreads⟩ := threads_plan hcut h
  obtain ⟨keys, hkeys, hnodup⟩ := exists_keys_plan hcut h
  rw [FanOut.mapped_outputValue, FanOut.maps_wiring, FanOut.maps_wiring, ← List.map_append]
  apply hthreads.wired hstart
  · intro p hp
    obtain ⟨k, _, rfl⟩ := List.mem_map.1 (hkeys.mem_iff.1 hp)
    exact ⟨k, rfl⟩
  · exact hkeys.nodup_iff.2 (hnodup.map EditPad.toPad_injective)

theorem isPlain_plan (hcut : request.cut transition = .ok plan.cut)
    (h : FanOut.Assembled ids params plan.cut.pads roles cs plan.outputs)
    (hplain : ∀ c ∈ plan.outputs.audio.filters ++ plan.outputs.video.filters, IsPlain c.filter) :
    ∀ c ∈ plan.clauses, c.IsPlain := by
  obtain ⟨hclauses, hpads⟩ := isPlain_cut hcut
  intro c hc
  rcases List.mem_append.1 hc with hc | hc
  · exact hclauses c hc
  rcases List.mem_append.1 hc with hc | hc
  · rw [h.audio_eq] at hc hplain
    refine FanOut.isPlain_wiring plan.cut.pads .audio (FanOut.active cs) hpads ?_ c hc
    intro d hd
    exact hplain d (List.mem_append_left _ hd)
  · rw [h.video_eq] at hc hplain
    refine FanOut.isPlain_wiring plan.cut.pads .video (FanOut.active cs) hpads ?_ c hc
    intro d hd
    exact hplain d (List.mem_append_right _ hd)

end Planned

theorem clauses_graph {plan : Plan} (h : ∀ c ∈ plan.clauses, c.text ≠ "") :
    plan.graph.clauses = plan.clauses.map Clause.text := by
  have hfilter : (plan.clauses.map Clause.text).filter (!·.isEmpty) =
      plan.clauses.map Clause.text := by
    rw [List.filter_eq_self]
    intro text htext
    obtain ⟨c, hc, rfl⟩ := List.mem_map.1 htext
    simpa using h c hc
  rw [Plan.graph, FilterGraph.clauses_addAll, FilterGraph.clauses_addAll, List.nil_append,
    ← List.filter_append, ← List.map_append]
  exact hfilter

/-- The text of a graph can be cut into its clauses, and these name their pads. -/
theorem text_graph {plan : Plan} (h : ∀ c ∈ plan.clauses, c.IsPlain) :
    (plan.graph.text? = none ↔ plan.clauses = []) ∧
      ∀ text, plan.graph.text? = some text →
        Text.split ';' text = plan.clauses.map Clause.text ∧ ∀ c ∈ plan.clauses, c.IsLegible := by
  have hgraph := clauses_graph fun c hc => (h c hc).text_ne_empty
  by_cases hempty : plan.clauses = []
  · have hnone : plan.graph.text? = none := by
      rw [FilterGraph.text?, hgraph, hempty]
      rfl
    refine ⟨by simp [hnone, hempty], ?_⟩
    intro text htext
    rw [hnone] at htext
    cases htext
  · have hne : plan.clauses.map Clause.text ≠ [] := by simpa using hempty
    have hsome : plan.graph.text? = some (";".intercalate (plan.clauses.map Clause.text)) := by
      rw [FilterGraph.text?, hgraph, if_neg (by simpa using hempty)]
    refine ⟨by simp [hsome, hempty], ?_⟩
    intro text htext
    rw [hsome] at htext
    obtain rfl := Option.some.inj htext
    refine ⟨Text.split_intercalate rfl hne ?_, fun c hc => (h c hc).isLegible⟩
    intro s hs
    obtain ⟨c, hc, rfl⟩ := List.mem_map.1 hs
    exact (h c hc).semicolon_not_mem_text

theorem arguments_command (encoder : String) (plan : Plan) :
    (plan.command encoder).arguments = ["-nostats", "-hide_banner"] ++
      (plan.inputs.flatMap fun path => ["-i", path.text]) ++
        (plan.graph.text?.toList.flatMap fun text => ["-filter_complex", text]) ++
          plan.outputs.arguments := by
  unfold Plan.command Command.filterComplex
  cases plan.graph.text? <;> simp [Command.append, Command.arguments_foldl_input]

/-- Every edit that can be compiled has words for the profiles that take part, and its graph
feeds the outputs that these words are for. -/
theorem feedsOutputs_of_plan {site : Site} {ids : Nat → String} {request : EditRequest}
    {profiles : List Profile} {plan : Plan} (h : request.plan site ids profiles = .ok plan) :
    ∃ first params roles cs trailing, ∃ values : StreamKind → Fin (FanOut.active cs).length → String,
      request.inputs.head? = some first ∧ parameters site first = .ok params ∧
        FanOut.rolesOf profiles = .ok roles ∧
        FanOut.Assembled ids params plan.cut.pads roles cs plan.outputs ∧
        FanOut.trailingArguments params plan.cut.pads (FanOut.active cs) roles.group =
          .ok trailing ∧
        plan.outputs.arguments =
          FanOut.outputWords request.kinds (FanOut.active cs) values ++ trailing ∧
        (plan.command site.settings.encoder).arguments = ["-nostats", "-hide_banner"] ++
          (plan.inputs.flatMap fun path => ["-i", path.text]) ++
          (plan.graph.text?.toList.flatMap fun text => ["-filter_complex", text]) ++
          plan.outputs.arguments ∧
        plan.FeedsOutputs request.kinds values := by
  obtain ⟨first, params, hfirst, hparams, hcut, houtputs⟩ := exists_of_plan h
  obtain ⟨roles, cs, trailing, hroles, hassembled, htrailing, harguments⟩ :=
    FanOut.exists_outputWords houtputs
  rw [present_of_cut hcut] at harguments
  refine ⟨first, params, roles, cs, trailing, _, hfirst, hparams, hroles, hassembled, htrailing,
    harguments, arguments_command _ _, ?_⟩
  constructor
  case wired =>
    rw [← present_of_cut hcut]
    exact wired_plan hcut hassembled
  case distinct =>
    intro kind hkind
    rw [← present_of_cut hcut] at hkind
    exact FanOut.outputValue_injective hkind
  case split =>
    intro kind c hsplit
    rw [hassembled.wiringOf_eq kind] at hsplit
    exact FanOut.split_wiring _ kind _ hsplit
  case text =>
    intro hplain
    exact text_graph (isPlain_plan hcut hassembled hplain)

/-- Two clips of two inputs for two profiles, one of them with a filter. -/
theorem feedsOutputs_two :
    let site : Site := ⟨{}, ⟨"/srv"⟩⟩
    let request : EditRequest :=
      { inputs := [⟨"/in/a.mp4"⟩, ⟨"/in/b.mp4"⟩], edits := some [0, 3000, 5000, 1, 10000, 5000] }
    let profile (command : String) : Profile :=
      { identifier := "p", name := "p", input := .audioVisual, output := .audioVisual
        extensions := Std.TreeMap.ofList [(Template.commandKey, command)] }
    let profiles := [profile "-vf scale=640:360 -crf 30 a.mp4", profile "-crf 20 b.mp4"]
    ∃ plan, ∃ values : StreamKind → Fin 2 → String,
      request.plan site (fun _ => "id") profiles = .ok plan ∧ plan.clauses.length = 9 ∧
      plan.outputs.arguments = ["-map", "[ov0]", "-map", "[oa0]", "-crf", "30", "a.mp4",
        "-map", "[ov1]", "-map", "[oa1]", "-crf", "20", "b.mp4"] ∧
      FanOut.mapped request.kinds values = ["[ov0]", "[ov1]", "[oa0]", "[oa1]"] ∧
      plan.FeedsOutputs request.kinds values := by
  intro site request profile profiles
  have hwords : ((request.plan site (fun _ => "id") profiles).toOption.map fun plan =>
      (plan.clauses.length, plan.outputs.arguments)) =
        some (9, ["-map", "[ov0]", "-map", "[oa0]", "-crf", "30", "a.mp4",
          "-map", "[ov1]", "-map", "[oa1]", "-crf", "20", "b.mp4"]) := by decide +kernel
  have hoptions : ((parameters site ⟨"/in/a.mp4"⟩).bind fun params =>
      (FanOut.rolesOf profiles).bind fun roles =>
        (FanOut.contributions (fun _ => "id") params roles).map fun cs =>
          (FanOut.active cs).map Contribution.options).toOption =
        some [["-crf", "30", "a.mp4"], ["-crf", "20", "b.mp4"]] := by decide +kernel
  obtain ⟨plan, hplan, hplanned⟩ := exists_of_map_toOption hwords
  obtain ⟨hclauses, hwords⟩ := Prod.mk.inj hplanned
  obtain ⟨first, params, roles, cs, trailing, values, hfirst, hparams, hroles, hassembled, _,
    harguments, _, hfeeds⟩ := feedsOutputs_of_plan hplan
  obtain rfl := Option.some.inj hfirst
  rw [hparams, Except.bind, hroles, Except.bind, hassembled.contributions_eq] at hoptions
  replace hoptions : (FanOut.active cs).map Contribution.options = _ := Option.some.inj hoptions
  rw [hwords] at harguments
  generalize FanOut.active cs = active at values harguments hfeeds hoptions
  obtain ⟨c, _, rfl, hc, hrest⟩ := List.map_eq_cons_iff.1 hoptions
  obtain ⟨c', _, rfl, hc', hnil⟩ := List.map_eq_cons_iff.1 hrest
  obtain rfl := List.map_eq_nil_iff.1 hnil
  refine ⟨plan, values, hplan, hclauses, hwords, ?_, hfeeds⟩
  obtain ⟨hv, ha, hv', ha', _⟩ : "[ov0]" = values .video 0 ∧ "[oa0]" = values .audio 0 ∧
      "[ov1]" = values .video 1 ∧ "[oa1]" = values .audio 1 ∧ trailing = [] := by
    simpa [FanOut.outputWords, kinds, request, List.finRange, hc, hc'] using harguments
  simp [FanOut.mapped, kinds, request, ← hv, ← ha, ← hv', ← ha']

end EditRequest

end Montage
