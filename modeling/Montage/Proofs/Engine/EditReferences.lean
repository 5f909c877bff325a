import Montage.Proofs.Concat.StreamReferences
import Montage.Proofs.Engine.EditClips
import Montage.Proofs.Engine.EditWiring
import Montage.Proofs.Graph.FilterNames
import Montage.Proofs.Output.NestedGraphs

/-!
# The inputs that an edit refers to

The command of an edit opens its inputs in their order, and the streams that its graph and
its `-map` options take by number are streams of these inputs, `references_of_compile`. The
numbers come from the triplets, which are checked before anything else is done with them.

Filters of profiles are put in the graph as they are, so a filter that names a stream by
itself is not checked (`refersTo_of_own_filter`).
-/

namespace Montage

instance (graph : String) (file : Nat) (kind : StreamKind) :
    Decidable (RefersTo graph file kind) := inferInstanceAs (Decidable (_ ∈ _))

/-- The pad is a stream of one of the first inputs, or no stream of an input. -/
def Pad.IsWithin (count : Nat) (p : Pad) : Prop :=
  (∃ (i : Nat) (kind : StreamKind), i < count ∧ p = .stream i kind.letter) ∨
    ∃ k : EditPad, p = k.toPad

theorem Pad.IsWithin.lt {count i : Nat} {kind : StreamKind}
    (h : (stream i kind.letter).IsWithin count) : i < count := by
  rcases h with ⟨j, kind', hj, heq⟩ | ⟨k, heq⟩
  · rw [(Pad.stream_inj.1 heq).1]
    exact hj
  · exact absurd (heq ▸ isSource_stream i kind) k.not_isSource_toPad

theorem Pad.isWithin_toPad (count : Nat) (k : EditPad) : k.toPad.IsWithin count := Or.inr ⟨k, rfl⟩

theorem Pad.IsWithin.lt_of_mapValue {count i : Nat} {kind : StreamKind} {p : Pad}
    (h : p.IsWithin count) (hvalue : p.mapValue = toString i ++ ":" ++ kind.letter.toString) :
    i < count := by
  rcases h with ⟨j, kind', hj, rfl⟩ | ⟨k, rfl⟩
  · rw [mapValue_stream] at hvalue
    rw [← (Pad.stream_inj.1 (congrArg named hvalue)).1]
    exact hj
  · rw [EditPad.mapValue_toPad] at hvalue
    refine absurd ?_ k.colon_not_mem_text
    rw [hvalue]
    simp

namespace Clip

theorem isWithin_of_mem_editGraph {clips : List (Clip Float)} {fade : Float} {video audio : Bool}
    {count : Nat} (h : ∀ c ∈ clips, c.source < count) :
    ∀ d ∈ editGraph clips fade video audio, ∀ p ∈ d.reads, p.IsWithin count := by
  intro d hd p hp
  rcases List.mem_append.1 hd with htrim | hjoin
  · obtain ⟨⟨c, i⟩, hplace, hkind⟩ := List.mem_flatMap.1 htrim
    obtain ⟨kind, _, rfl⟩ := List.mem_map.1 hkind
    have hc := List.mem_of_getElem? (List.mem_zipIdx_iff_getElem?.1 hplace)
    exact Or.inl ⟨c.source, kind, h c hc, List.mem_singleton.1 hp⟩
  · split at hjoin
    · obtain ⟨kind, _, rfl⟩ := List.mem_map.1 hjoin
      obtain ⟨i, _, rfl⟩ := List.mem_map.1 hp
      rw [← EditPad.toPad_clip]
      exact Pad.isWithin_toPad count _
    · cases hjoin

end Clip

namespace Wiring

variable {kind : StreamKind} {input : Pad} {filters : List (Option String)} {c : Clause}

theorem exists_of_mem_filters (h : c ∈ (ofFilters kind input filters).filters) :
    ∃ source filter i, c = ⟨[source], filter, [kind.outputPad i]⟩ ∧ some filter ∈ filters ∧
      (source = input ∨ source = kind.branchPad i) := by
  have hseveral (h : c ∈ (several kind input filters).filters) :
      ∃ source filter i, c = ⟨[source], filter, [kind.outputPad i]⟩ ∧ some filter ∈ filters ∧
        (source = input ∨ source = kind.branchPad i) := by
    obtain ⟨⟨filter?, i⟩, hplace, hx⟩ := List.mem_filterMap.1 h
    obtain ⟨filter, hfilter, rfl⟩ := Option.map_eq_some_iff.1 hx
    obtain rfl : filter? = some filter := hfilter
    exact ⟨_, filter, i, rfl, List.mem_of_getElem? (List.mem_zipIdx_iff_getElem?.1 hplace),
      Or.inr rfl⟩
  match filters with
  | [] => exact hseveral h
  | [none] => cases h
  | [some filter] =>
    obtain rfl := List.mem_singleton.1 h
    exact ⟨input, filter, 0, rfl, List.mem_cons_self, Or.inl rfl⟩
  | _ :: _ :: _ => exact hseveral h

theorem split_cases (h : (ofFilters kind input filters).split = some c) :
    c.reads = [input] ∧ (input.IsNamed → c.IsPlain) := by
  have hseveral (h : (several kind input filters).split = some c) :
      c.reads = [input] ∧ (input.IsNamed → c.IsPlain) := by
    refine ⟨?_, fun hinput => isPlain_split kind input hinput h⟩
    cases h
    rfl
  match filters with
  | [] => exact hseveral h
  | [none] => cases h
  | [some filter] => cases h
  | _ :: _ :: _ => exact hseveral h

theorem isBracketed_of_mem_clauses (hinput : input.IsNamed)
    (h : c ∈ (ofFilters kind input filters).clauses) : c.IsBracketed := by
  rcases List.mem_append.1 h with hsplit | hfilter
  · exact ((split_cases (Option.mem_toList.1 hsplit)).2 hinput).isBracketed
  · obtain ⟨source, filter, i, rfl, _, hsource⟩ := exists_of_mem_filters hfilter
    have hnamed : source.IsNamed := by
      rcases hsource with rfl | rfl
      · exact hinput
      · exact isNamed_branchPad kind i
    refine ⟨List.cons_ne_nil _ _, ?_, fun _ => List.cons_ne_nil _ _⟩
    simpa [Clause.pads] using ⟨hnamed, isNamed_outputPad kind i⟩

theorem isWithin_of_mem_clauses {count : Nat} (hinput : input.IsWithin count)
    (h : c ∈ (ofFilters kind input filters).clauses) : ∀ p ∈ c.reads, p.IsWithin count := by
  rcases List.mem_append.1 h with hsplit | hfilter
  · rw [(split_cases (Option.mem_toList.1 hsplit)).1]
    exact List.forall_mem_singleton.2 hinput
  · obtain ⟨source, filter, i, rfl, _, hsource⟩ := exists_of_mem_filters hfilter
    refine List.forall_mem_singleton.2 ?_
    rcases hsource with rfl | rfl
    · exact hinput
    · rw [← EditPad.toPad_branch]
      exact Pad.isWithin_toPad count _

/-- Only the filters of a wiring can have names in them. -/
theorem exists_of_mem_names (hinput : input.IsNamed)
    (h : c ∈ (ofFilters kind input filters).clauses) {name : String}
    (hname : name ∈ Pad.names c.filter) : some c.filter ∈ filters := by
  rcases List.mem_append.1 h with hsplit | hfilter
  · have hplain := ((split_cases (Option.mem_toList.1 hsplit)).2 hinput).filter
    rw [Pad.names_of_not_mem fun hmem => (hplain _ hmem).1 rfl] at hname
    cases hname
  · obtain ⟨source, filter, i, rfl, hmem, _⟩ := exists_of_mem_filters hfilter
    exact hmem

theorem isWithin_of_mem_encodedPads {count : Nat} (hinput : input.IsWithin count) {p : Pad}
    (h : p ∈ encodedPads kind input filters) : p.IsWithin count := by
  have hseveral (h : p ∈ (List.range filters.length).map kind.outputPad) : p.IsWithin count := by
    obtain ⟨i, _, rfl⟩ := List.mem_map.1 h
    rw [← EditPad.toPad_output]
    exact Pad.isWithin_toPad count _
  match filters with
  | [none] =>
    rw [List.mem_singleton.1 h]
    exact hinput
  | [] | [some _] | none :: _ :: _ | some _ :: _ :: _ => exact hseveral h

end Wiring

theorem StreamPads.mem_toList {pads : StreamPads} {kind : StreamKind} {pad : Pad}
    (h : pads.pad? kind = some pad) : pad ∈ pads.toList := by
  cases kind with
  | video => exact List.mem_append_left _ (Option.mem_toList.2 h)
  | audio => exact List.mem_append_right _ (Option.mem_toList.2 h)

namespace FanOut

variable {pads : StreamPads} {kind : StreamKind} {cs : List Contribution} {c : Clause}

theorem exists_of_mem_clauses_wiring (h : c ∈ (wiring pads kind cs).clauses) :
    ∃ pad ∈ pads.toList,
      c ∈ (Wiring.ofFilters kind pad (cs.map (·.filter kind))).clauses := by
  cases hpad : pads.pad? kind with
  | none =>
    rw [wiring_of_none cs hpad] at h
    cases h
  | some pad =>
    rw [wiring_of_some cs hpad] at h
    exact ⟨pad, StreamPads.mem_toList hpad, h⟩

theorem isWithin_of_mem_encodedPads {count : Nat} (h : ∀ p ∈ pads.toList, p.IsWithin count)
    {p : Pad} (hp : p ∈ encodedPads pads kind cs) : p.IsWithin count := by
  unfold encodedPads at hp
  cases hpad : pads.pad? kind with
  | none =>
    rw [hpad] at hp
    cases hp
  | some pad =>
    rw [hpad] at hp
    exact Wiring.isWithin_of_mem_encodedPads (h pad (StreamPads.mem_toList hpad)) hp

/-- A filter among the directives names the stream by itself. -/
def FiltersReferTo (read : List (List Directive)) (file : Nat) (kind : StreamKind) : Prop :=
  ∃ ds ∈ read, ∃ filtered option value, .filter filtered option value ∈ ds ∧
    RefersTo (Text.replaced "\"" "" value) file kind

theorem filtersReferTo_of_filter {dropCopy : Bool} {read : List (List Directive)} {file : Nat}
    {filtered : StreamKind} {filter : String}
    (hfrom : List.Forall₂ (Contribution.ComesFrom dropCopy) cs read)
    (hmem : some filter ∈ cs.map (·.filter filtered)) (hrefers : RefersTo filter file kind) :
    FiltersReferTo read file kind := by
  obtain ⟨c, hc, hfilter⟩ := List.mem_map.1 hmem
  obtain ⟨index, hindex, rfl⟩ := List.getElem_of_mem hc
  obtain ⟨hlength, hplaces⟩ := List.forall₂_iff_get.1 hfrom
  have hread : index < read.length := hlength ▸ hindex
  have hlast := (hplaces index hindex hread).filter_eq filtered
  rw [List.get_eq_getElem, hfilter, Directive.last?] at hlast
  obtain ⟨d, hd, hvalue⟩ := List.mem_filterMap.1 (List.mem_of_getLast? hlast.symm)
  refine ⟨_, List.getElem_mem hread, ?_⟩
  cases d with
  | filter kind' option value =>
    simp only [Directive.filterOf?] at hvalue
    split at hvalue
    · cases hvalue
      exact ⟨kind', option, value, hd, hrefers⟩
    · cases hvalue
  | _ => cases hvalue

end FanOut

namespace Command

theorem inputFiles_flatMap (paths : List Path) (rest : List String) :
    inputFiles ((paths.flatMap fun path => ["-i", path.text]) ++ rest) =
      paths.map Path.text ++ inputFiles rest := by
  induction paths with
  | nil => rfl
  | cons path paths ih =>
    rw [List.map_cons, List.cons_append, ← ih]
    rfl

end Command

namespace EditRequest

variable {site : Site} {ids : Nat → String} {request : EditRequest} {profiles : List Profile}
  {plan : Plan} {params : Parameters} {roles : FanOut.Roles} {cs : List Contribution}
  {transition : Nat} {cut : Cut}

theorem isWithin_cut (h : request.cut transition = .ok cut) (hinputs : request.inputs ≠ []) :
    (∀ c ∈ cut.clauses, ∀ p ∈ c.reads, p.IsWithin request.inputs.length) ∧
      ∀ p ∈ cut.pads.toList, p.IsWithin request.inputs.length := by
  unfold EditRequest.cut at h
  cases hedits : request.edits with
  | none =>
    rw [hedits] at h
    obtain rfl := pure_eq_ok_iff.1 h
    refine ⟨by simp, fun p hp => ?_⟩
    rw [toList_padsOf] at hp
    obtain ⟨kind, _, rfl⟩ := List.mem_map.1 hp
    exact Or.inl ⟨0, kind, List.length_pos_of_ne_nil hinputs, rfl⟩
  | some edits =>
    rw [hedits] at h
    obtain ⟨clips, hclips, h⟩ := bind_eq_ok_iff.1 h
    obtain rfl := pure_eq_ok_iff.1 h
    have hsources : ∀ c ∈ clips, c.source < request.inputs.length := by
      rcases clipsOfEdits_cases request.inputs.length transition edits with
        ⟨_, fault, herror⟩ | ⟨_, found, hfound, _, hsources⟩
      · rw [hclips] at herror
        cases herror
      · rw [hclips] at hfound
        cases hfound
        exact hsources
    refine ⟨Clip.isWithin_of_mem_editGraph hsources, fun p hp => ?_⟩
    rw [toList_padsOf] at hp
    obtain ⟨kind, _, rfl⟩ := List.mem_map.1 hp
    rw [← EditPad.toPad_edit]
    exact Pad.isWithin_toPad _ _

theorem isBracketed_plan (hcut : request.cut transition = .ok plan.cut)
    (h : FanOut.Assembled ids params plan.cut.pads roles cs plan.outputs) :
    ∀ c ∈ plan.clauses, c.IsBracketed := by
  obtain ⟨hclauses, hnamed⟩ := isPlain_cut hcut
  have hwiring (kind : StreamKind) {c : Clause}
      (hc : c ∈ (plan.outputs.wiringOf kind).clauses) : c.IsBracketed := by
    rw [h.wiringOf_eq] at hc
    obtain ⟨pad, hpad, hc⟩ := FanOut.exists_of_mem_clauses_wiring hc
    exact Wiring.isBracketed_of_mem_clauses (hnamed pad hpad) hc
  intro c hc
  rcases List.mem_append.1 hc with hc | hc
  · exact (hclauses c hc).isBracketed
  rcases List.mem_append.1 hc with hc | hc
  · exact hwiring .audio hc
  · exact hwiring .video hc

theorem eq_of_text_graph (h : ∀ c ∈ plan.clauses, c.IsBracketed) {text : String}
    (htext : plan.graph.text? = some text) :
    text = ";".intercalate (plan.clauses.map Clause.text) := by
  rw [FilterGraph.text?, clauses_graph fun c hc => (h c hc).text_ne_empty] at htext
  split at htext
  · cases htext
  · exact (Option.some.inj htext).symm

/-- Streams that the graph names are those of inputs, or named by a filter. -/
theorem refersTo_cases {read : List (List Directive)} {dropCopy : Bool}
    (hcut : request.cut transition = .ok plan.cut) (hinputs : request.inputs ≠ [])
    (h : FanOut.Assembled ids params plan.cut.pads roles cs plan.outputs)
    (hfrom : List.Forall₂ (Contribution.ComesFrom dropCopy) (FanOut.active cs) read)
    {text : String} (htext : plan.graph.text? = some text) {file : Nat} {kind : StreamKind}
    (hrefers : RefersTo text file kind) :
    file < request.inputs.length ∨ FanOut.FiltersReferTo read file kind := by
  have hbracketed := isBracketed_plan hcut h
  obtain ⟨hreads, hpads⟩ := isWithin_cut hcut hinputs
  obtain ⟨hplain, hnamed⟩ := isPlain_cut hcut
  obtain ⟨keys, hkeys, _⟩ := exists_keys_plan hcut h
  have hpad := List.mem_map_of_mem (f := Pad.named) hrefers
  rw [eq_of_text_graph hbracketed htext, Clause.named_names_graph hbracketed] at hpad
  obtain ⟨c, hc, hmem⟩ := List.mem_flatMap.1 hpad
  -- a clause of a wiring takes pads of the cut, and only its filter is not ours
  have hwiring (filtered : StreamKind) (hc : c ∈ (plan.outputs.wiringOf filtered).clauses) :
      (∀ p ∈ c.reads, p.IsWithin request.inputs.length) ∧
        ∀ name ∈ Pad.names c.filter,
          some c.filter ∈ (FanOut.active cs).map (·.filter filtered) := by
    rw [h.wiringOf_eq] at hc
    obtain ⟨pad, hpad, hc⟩ := FanOut.exists_of_mem_clauses_wiring hc
    exact ⟨Wiring.isWithin_of_mem_clauses (hpads pad hpad) hc,
      fun name hname => Wiring.exists_of_mem_names (hnamed pad hpad) hc hname⟩
  have hcases : (∀ p ∈ c.reads, p.IsWithin request.inputs.length) ∧
      ∀ name ∈ Pad.names c.filter,
        ∃ filtered, some c.filter ∈ (FanOut.active cs).map (·.filter filtered) := by
    rcases List.mem_append.1 hc with hc | hc
    · refine ⟨hreads c hc, fun name hname => ?_⟩
      rw [Pad.names_of_not_mem fun hmem => ((hplain c hc).filter _ hmem).1 rfl] at hname
      cases hname
    rcases List.mem_append.1 hc with hc | hc
    · exact ⟨(hwiring .audio hc).1, fun name hname => ⟨_, (hwiring .audio hc).2 name hname⟩⟩
    · exact ⟨(hwiring .video hc).1, fun name hname => ⟨_, (hwiring .video hc).2 name hname⟩⟩
  rcases List.mem_append.1 hmem with hmem | hwrite
  · rcases List.mem_append.1 hmem with hread | hfilter
    · exact Or.inl (hcases.1 _ hread).lt
    · have hrefers := (List.mem_map_of_injective Pad.named_injective).1 hfilter
      obtain ⟨filtered, hfilter⟩ := hcases.2 _ hrefers
      exact Or.inr (FanOut.filtersReferTo_of_filter hfrom hfilter hrefers)
  · have hwrites := hkeys.mem_iff.1 (List.mem_flatMap.2 ⟨c, hc, hwrite⟩)
    obtain ⟨k, _, hk⟩ := List.mem_map.1 hwrites
    exact absurd (hk ▸ Pad.isSource_stream file kind) k.not_isSource_toPad

theorem exists_inputFiles_command (encoder : String) (plan : Plan) :
    ∃ rest, Command.inputFiles (plan.command encoder).arguments =
      plan.inputs.map Path.text ++ rest := by
  refine ⟨Command.inputFiles ((plan.graph.text?.toList.flatMap fun text =>
    ["-filter_complex", text]) ++ plan.outputs.arguments), ?_⟩
  rw [← Command.inputFiles_flatMap, arguments_command, List.append_assoc, List.append_assoc,
    Command.inputFiles_append_of_not_mem (by decide)]

theorem lt_of_mem_mapped (hcut : request.cut transition = .ok cut) (hinputs : request.inputs ≠ [])
    {k : Nat} {kind : StreamKind}
    (h : toString k ++ ":" ++ kind.letter.toString ∈
      FanOut.mapped cut.pads.present (FanOut.outputValue cut.pads cs)) :
    k < request.inputs.length := by
  obtain ⟨_, hpads⟩ := isWithin_cut hcut hinputs
  rw [FanOut.mapped_outputValue, FanOut.maps_wiring, FanOut.maps_wiring, ← List.map_append] at h
  obtain ⟨p, hp, hvalue⟩ := List.mem_map.1 h
  refine Pad.IsWithin.lt_of_mapValue ?_ hvalue
  rcases List.mem_append.1 hp with hp | hp
  · exact FanOut.isWithin_of_mem_encodedPads hpads hp
  · exact FanOut.isWithin_of_mem_encodedPads hpads hp

/-- An edit refers to its inputs alone, except in filters of profiles, and edits are refused
exactly if they cannot be made. -/
theorem references_of_compile (site : Site) (ids : Nat → String) (request : EditRequest)
    (profiles : List Profile) :
    (∀ command, request.compile site ids profiles = .ok command →
      ∃ plan first params roles cs read trailing,
        ∃ values : StreamKind → Fin (FanOut.active cs).length → String,
        request.plan site ids profiles = .ok plan ∧
        command = plan.command site.settings.encoder ∧
        request.inputs.head? = some first ∧ parameters site first = .ok params ∧
        FanOut.deliveryDirectives ids params profiles = .ok read ∧
        FanOut.Assembled ids params plan.cut.pads roles cs plan.outputs ∧
        FanOut.trailingArguments params plan.cut.pads (FanOut.active cs) roles.group =
          .ok trailing ∧
        command.arguments = ["-nostats", "-hide_banner"] ++
          (plan.inputs.flatMap fun path => ["-i", path.text]) ++
          (plan.graph.text?.toList.flatMap fun text => ["-filter_complex", text]) ++
          (FanOut.outputWords request.kinds (FanOut.active cs) values ++ trailing) ∧
        (∀ (k : Nat) (input : Path), request.inputs[k]? = some input →
          ∃ path, MediaFile.absolute site.cwd input = .ok path ∧
            (Command.inputFiles command.arguments)[k]? = some path.text) ∧
        (∀ graph, plan.graph.text? = some graph → ∀ k kind, RefersTo graph k kind →
          k < request.inputs.length ∨ FanOut.FiltersReferTo read k kind) ∧
        (∀ k (kind : StreamKind),
          toString k ++ ":" ++ kind.letter.toString ∈ FanOut.mapped request.kinds values →
            k < request.inputs.length) ∧
        ∀ edits, request.edits = some edits → ∃ clips,
          clipsOfEdits request.inputs.length
            (request.transition.getD site.settings.transition % 2 ^ 64) edits = .ok clips) ∧
    ∀ inputs transition edits,
      (Refused inputs transition edits ∧
          ∃ fault, clipsOfEdits inputs transition edits = .error (.invalidEdit fault)) ∨
        ¬ Refused inputs transition edits ∧
          ∃ clips, clipsOfEdits inputs transition edits = .ok clips ∧ clips ≠ [] ∧
            ∀ c ∈ clips, c.source < inputs := by
  refine ⟨fun command hcommand => ?_, clipsOfEdits_cases⟩
  obtain ⟨plan, h, rfl⟩ := map_eq_ok_iff.1 hcommand
  obtain ⟨first, params, hfirst, _, _, hcut, hparams, houtputs, hinputs⟩ := plan_eq_ok_iff.1 h
  obtain ⟨roles, cs, trailing, hroles, hassembled, htrailing, hwords⟩ :=
    FanOut.exists_outputWords houtputs
  obtain ⟨read, hread, hfrom, _⟩ :=
    FanOut.comesFrom_contributions hroles hassembled.contributions_eq
  have hne : request.inputs ≠ [] := by
    rintro hnil
    rw [hnil] at hfirst
    cases hfirst
  refine ⟨plan, first, params, roles, cs, read, trailing, FanOut.outputValue plan.cut.pads _, h,
    rfl, hfirst, hparams, hread, hassembled, htrailing, ?_, ?_, ?_, ?_, ?_⟩
  · rw [arguments_command, hwords, present_of_cut hcut]
  · intro k input hinput
    obtain ⟨path, hpath, hplace⟩ := exists_of_mapM_eq_ok hinputs hinput
    obtain ⟨rest, hfiles⟩ := exists_inputFiles_command site.settings.encoder plan
    have hk : k < (plan.inputs.map Path.text).length := by
      simpa using (List.getElem?_eq_some_iff.1 hplace).1
    refine ⟨path, hpath, ?_⟩
    rw [hfiles, List.getElem?_append_left hk, List.getElem?_map, hplace]
    rfl
  · intro graph hgraph k kind hrefers
    have htaking := FanOut.comesFrom_active hfrom
    refine (refersTo_cases hcut hne hassembled htaking hgraph hrefers).imp_right ?_
    rintro ⟨ds, hds, hfilter⟩
    exact ⟨ds, List.mem_of_mem_filter hds, hfilter⟩
  · intro k kind hmem
    rw [← present_of_cut hcut] at hmem
    exact lt_of_mem_mapped hcut hne hmem
  · intro edits hedits
    rw [EditRequest.cut, hedits] at hcut
    obtain ⟨clips, hclips, _⟩ := bind_eq_ok_iff.1 hcut
    exact ⟨clips, hclips⟩

/-- Two clips of two inputs, the first path relative; the graph takes video of the second. The
transition is two seconds and as much as does not fit in 64 bits. -/
theorem references_of_compile_two :
    let site : Site := ⟨{}, ⟨"/srv"⟩⟩
    let request : EditRequest :=
      { inputs := [⟨"a.mp4"⟩, ⟨"/in/b.mp4"⟩], edits := some [0, 3000, 5000, 1, 10000, 5000]
        transition := some (2 ^ 64 + 2000) }
    let profiles : List Profile := [
      { identifier := "p", name := "p", input := .audioVisual, output := .audioVisual
        extensions := Std.TreeMap.ofList [(Template.commandKey, "-vf scale=640:-2 a.mp4")] }]
    ∃ (command : Command) (plan : Plan) (read : List (List Directive)),
      request.compile site (fun _ => "id") profiles = .ok command ∧
      command = plan.command site.settings.encoder ∧
      .stream 1 'v' ∈ plan.clauses.flatMap Clause.reads ∧
      (∃ path, MediaFile.absolute site.cwd ⟨"a.mp4"⟩ = .ok path ∧
        (Command.inputFiles command.arguments)[0]? = some path.text) ∧
      (∀ graph, plan.graph.text? = some graph → ∀ k kind, RefersTo graph k kind →
        k < 2 ∨ FanOut.FiltersReferTo read k kind) ∧
      ∃ clips, clipsOfEdits 2 2000 [0, 3000, 5000, 1, 10000, 5000] = .ok clips ∧
        ∀ c ∈ clips, c.source < 2 := by
  intro site request profiles
  have hreads : (request.plan site (fun _ => "id") profiles).toOption.map (fun plan =>
      decide (.stream 1 'v' ∈ plan.clauses.flatMap Clause.reads)) = some true := by
    decide +kernel
  obtain ⟨plan, hplan, hread⟩ := exists_of_map_toOption hreads
  have hcompile : request.compile site (fun _ => "id") profiles =
      .ok (plan.command site.settings.encoder) := map_eq_ok_iff.2 ⟨plan, hplan, rfl⟩
  obtain ⟨hrefers, hclips⟩ := references_of_compile site (fun _ => "id") request profiles
  obtain ⟨found, first, params, _, _, read, _, _, hfound, hcommand, _, _, _, _, _, _, hinputs,
    hgraph, _⟩ := hrefers (plan.command site.settings.encoder) hcompile
  obtain rfl := Except.ok.inj (hplan.symm.trans hfound)
  refine ⟨_, plan, read, hcompile, hcommand, of_decide_eq_true hread, hinputs 0 _ rfl, hgraph, ?_⟩
  rcases hclips 2 2000 [0, 3000, 5000, 1, 10000, 5000] with ⟨_, fault, hrefused⟩ | ⟨_, hmade⟩
  · have hok : (clipsOfEdits 2 2000 [0, 3000, 5000, 1, 10000, 5000]).toOption.isSome = true := by
      decide +kernel
    rw [hrefused] at hok
    cases hok
  · obtain ⟨clips, hmade, _, hsources⟩ := hmade
    exact ⟨clips, hmade, hsources⟩

/-- A filter names the video of an eighth input, and there is one. -/
theorem refersTo_of_own_filter :
    let site : Site := ⟨{}, ⟨"/srv"⟩⟩
    let request : EditRequest := { inputs := [⟨"/in/a.mp4"⟩] }
    let profiles : List Profile := [
      { identifier := "p", name := "p", input := .audioVisual, output := .audioVisual
        extensions := Std.TreeMap.ofList [(Template.commandKey, "-vf [7:v]overlay a.mp4")] }]
    ∃ (plan : Plan) (graph : String), request.plan site (fun _ => "id") profiles = .ok plan ∧
      plan.graph.text? = some graph ∧ RefersTo graph 7 .video ∧ ¬ 7 < request.inputs.length := by
  intro site request profiles
  have hnames : (request.plan site (fun _ => "id") profiles).toOption.map (fun plan =>
      plan.graph.text?.map fun graph => decide (RefersTo graph 7 .video)) = some (some true) := by
    decide +kernel
  obtain ⟨plan, hplan, hnames⟩ := exists_of_map_toOption hnames
  obtain ⟨graph, htext, hname⟩ := Option.map_eq_some_iff.1 hnames
  exact ⟨plan, graph, hplan, htext, of_decide_eq_true hname, by decide⟩

end EditRequest

end Montage
