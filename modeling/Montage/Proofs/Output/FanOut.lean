import Mathlib.Data.List.FinRange
import Montage.Output.FanOut
import Montage.Proofs.Outcome
import Montage.Proofs.Output.Wiring

/-!
# How a shared command is assembled

`FanOut.Assembled` says which parts a shared command has once its profiles are
sorted by their roles and their contributions are known. Every command that
`FanOut.build` gives is assembled so, `exists_assembled`; nothing about its
checks and their order is needed after that.

Then there is the wiring of a kind of stream. A kind without a pad has no clauses
and no `-map` options; otherwise the statements about `Wiring.ofFilters` apply,
with the filters of the contributions that take part.

What the command says of all this are words. `outputWords` writes them down with
a value for each `-map`, and `exists_outputWords` shows that the values are those
of the wiring.
-/

namespace Montage

def StreamPads.toList (pads : StreamPads) : List Pad := pads.video.toList ++ pads.audio.toList

def StreamPads.present (pads : StreamPads) : List StreamKind :=
  [StreamKind.video, .audio].filter fun kind => (pads.pad? kind).isSome

theorem StreamPads.flatMap_present {α : Type} (pads : StreamPads) (f : StreamKind → List α) :
    pads.present.flatMap f = (if (pads.pad? .video).isSome then f .video else []) ++
      if (pads.pad? .audio).isSome then f .audio else [] := by
  obtain ⟨video, audio⟩ := pads
  cases video <;> cases audio <;> simp [present, pad?]

namespace FanOut

def active (cs : List Contribution) : List Contribution := cs.filter (·.isActive)

/-- A shared command with the contributions of its profiles. -/
structure Assembled (ids : Nat → String) (params : Parameters) (pads : StreamPads) (roles : Roles)
    (cs : List Contribution) (f : FanOut) : Prop where
  contributions_eq : contributions ids params roles = .ok cs
  active_ne_nil : active cs ≠ []
  video_eq : f.video = wiring pads .video (active cs)
  audio_eq : f.audio = wiring pads .audio (active cs)
  arguments_eq : ∃ trailing, f.arguments = outputGroups f.video f.audio (active cs) ++ trailing
  slots_eq : f.slots = (roles.delivery.zip cs).map fun (p, c) => ⟨p.identifier, c.file⟩
  segmentSuffixes_eq : f.segmentSuffixes =
    if roles.group.isSome then
      roles.delivery.map fun p => Template.substitute params p.suffixTemplate
    else []
  adaptive_eq : f.adaptive = roles.group.isSome

/-- Behind the arguments of the outputs stand those of the group. -/
theorem exists_assembled_trailing {ids : Nat → String} {profiles : List Profile}
    {params : Parameters} {pads : StreamPads} {f : FanOut} (h : build ids profiles params pads = .ok f) :
    ∃ roles cs trailing, rolesOf profiles = .ok roles ∧ Assembled ids params pads roles cs f ∧
      trailingArguments params pads (active cs) roles.group = .ok trailing ∧
        f.arguments = outputGroups f.video f.audio (active cs) ++ trailing := by
  unfold build at h
  by_cases hpads : (pads.video.isNone && pads.audio.isNone) = true
  · rw [if_pos hpads] at h
    cases h
  rw [if_neg hpads] at h
  obtain ⟨roles, hroles, h⟩ := bind_eq_ok_iff.1 h
  by_cases hdelivery : roles.delivery.isEmpty = true
  · rw [if_pos hdelivery] at h
    cases h
  rw [if_neg hdelivery] at h
  obtain ⟨cs, hcs, h⟩ := bind_eq_ok_iff.1 h
  by_cases hactive : (cs.filter (·.isActive)).isEmpty = true
  · rw [if_pos hactive] at h
    cases h
  rw [if_neg hactive] at h
  obtain ⟨trailing, htrailing, h⟩ := bind_eq_ok_iff.1 h
  cases h
  refine ⟨roles, cs, trailing, hroles, ⟨hcs, ?_, rfl, rfl, ⟨trailing, rfl⟩, rfl, rfl, rfl⟩,
    htrailing, rfl⟩
  intro hnil
  exact hactive (by simpa [active] using hnil)

theorem exists_assembled {ids : Nat → String} {profiles : List Profile} {params : Parameters}
    {pads : StreamPads} {f : FanOut} (h : build ids profiles params pads = .ok f) :
    ∃ roles cs, rolesOf profiles = .ok roles ∧ Assembled ids params pads roles cs f := by
  obtain ⟨roles, cs, _, hroles, hassembled, _⟩ := exists_assembled_trailing h
  exact ⟨roles, cs, hroles, hassembled⟩

def wiringOf (f : FanOut) : StreamKind → Wiring
  | .video => f.video
  | .audio => f.audio

theorem Assembled.wiringOf_eq {ids : Nat → String} {params : Parameters} {pads : StreamPads}
    {roles : Roles} {cs : List Contribution} {f : FanOut} (h : Assembled ids params pads roles cs f)
    (kind : StreamKind) : f.wiringOf kind = wiring pads kind (active cs) := by
  cases kind with
  | video => exact h.video_eq
  | audio => exact h.audio_eq

section Wiring

variable (pads : StreamPads) (kind : StreamKind) (cs : List Contribution)

def encodedPads : List Pad :=
  match pads.pad? kind with
  | some pad => Wiring.encodedPads kind pad (cs.map (·.filter kind))
  | none => []

theorem wiring_of_none {pads : StreamPads} {kind : StreamKind} (h : pads.pad? kind = none) :
    wiring pads kind cs = {} := by
  simp [wiring, h]

theorem wiring_of_some {pads : StreamPads} {kind : StreamKind} {pad : Pad}
    (h : pads.pad? kind = some pad) :
    wiring pads kind cs = .ofFilters kind pad (cs.map (·.filter kind)) := by
  simp [wiring, h]

theorem maps_wiring : (wiring pads kind cs).maps = (encodedPads pads kind cs).map Pad.mapValue := by
  unfold encodedPads
  cases h : pads.pad? kind with
  | none => rw [wiring_of_none cs h, List.map_nil]
  | some pad => rw [wiring_of_some cs h, Wiring.maps_ofFilters]

theorem threads_wiring : Threads ((pads.pad? kind).toList : List Pad) (wiring pads kind cs).clauses
    (encodedPads pads kind cs : List Pad) := by
  unfold encodedPads
  cases h : pads.pad? kind with
  | none =>
      rw [wiring_of_none cs h]
      exact Threads.nil _
  | some pad =>
      rw [wiring_of_some cs h]
      exact Wiring.threads_ofFilters kind pad _

theorem exists_keys_wiring :
    ∃ keys : List EditPad,
      ((wiring pads kind cs).clauses.flatMap Clause.writes).Perm (keys.map EditPad.toPad) ∧
        keys.Nodup ∧ ∀ k ∈ keys, k.outputKind? = some kind := by
  cases h : pads.pad? kind with
  | none =>
      rw [wiring_of_none cs h]
      exact ⟨[], List.Perm.nil, List.nodup_nil, by simp⟩
  | some pad =>
      rw [wiring_of_some cs h]
      exact Wiring.exists_keys_ofFilters kind pad _

theorem split_wiring {c : Clause} (h : (wiring pads kind cs).split = some c) :
    c.filter = kind.mark ++ "split=" ++ toString cs.length ∧ c.writes.length = cs.length := by
  cases hpad : pads.pad? kind with
  | none =>
      rw [wiring_of_none cs hpad] at h
      cases h
  | some pad =>
      rw [wiring_of_some cs hpad] at h
      simpa using Wiring.split_ofFilters kind pad h

theorem maps_wiring_of_isSome (h : (pads.pad? kind).isSome = true) :
    (wiring pads kind cs).maps.Nodup ∧ (wiring pads kind cs).maps.length = cs.length := by
  obtain ⟨pad, hpad⟩ := Option.isSome_iff_exists.1 h
  rw [wiring_of_some cs hpad]
  refine ⟨Wiring.nodup_maps_ofFilters kind pad _, ?_⟩
  rw [Wiring.length_maps_ofFilters, List.length_map]

theorem isPlain_wiring (hnamed : ∀ p ∈ pads.toList, p.IsNamed)
    (hplain : ∀ c ∈ (wiring pads kind cs).filters, IsPlain c.filter) :
    ∀ c ∈ (wiring pads kind cs).clauses, c.IsPlain := by
  cases hpad : pads.pad? kind with
  | none =>
      rw [wiring_of_none cs hpad]
      intro c hc
      cases hc
  | some pad =>
      rw [wiring_of_some cs hpad] at hplain ⊢
      have hmem : pad ∈ pads.toList := by
        cases kind with
        | video => exact List.mem_append_left _ (Option.mem_toList.2 hpad)
        | audio => exact List.mem_append_right _ (Option.mem_toList.2 hpad)
      exact Wiring.isPlain_of_mem_clauses kind pad (hnamed pad hmem) hplain

end Wiring

section Words

/-- The words of outputs: each output takes a stream of each kind, and its options
stand behind that. -/
def outputWords (kinds : List StreamKind) (outputs : List Contribution)
    (values : StreamKind → Fin outputs.length → String) : List String :=
  (List.finRange outputs.length).flatMap fun i =>
    (kinds.flatMap fun kind => ["-map", values kind i]) ++ outputs[i].options

/-- What stands behind the `-map` of these words. -/
def mapped {count : Nat} (kinds : List StreamKind) (values : StreamKind → Fin count → String) :
    List String := kinds.flatMap fun kind => List.ofFn (values kind)

/-- What the output at an index takes of a kind of stream. -/
def outputValue (pads : StreamPads) (cs : List Contribution) (kind : StreamKind)
    (i : Fin cs.length) : String := (wiring pads kind cs).maps[i.val]?.getD ""

theorem ofFn_outputValue {pads : StreamPads} {kind : StreamKind} (cs : List Contribution)
    (h : (pads.pad? kind).isSome = true) :
    List.ofFn (outputValue pads cs kind) = (wiring pads kind cs).maps := by
  have hlength := (maps_wiring_of_isSome pads kind cs h).2
  apply List.ext_getElem
  · rw [List.length_ofFn, hlength]
  · intro i hi _
    rw [List.getElem_ofFn, outputValue, List.getElem?_eq_getElem, Option.getD_some]

theorem outputValue_injective {pads : StreamPads} {cs : List Contribution} {kind : StreamKind}
    (h : kind ∈ pads.present) : Function.Injective (outputValue pads cs kind) := by
  have hpad : (pads.pad? kind).isSome = true := (List.mem_filter.1 h).2
  rw [← List.nodup_ofFn, ofFn_outputValue cs hpad]
  exact (maps_wiring_of_isSome pads kind cs hpad).1

theorem mapped_outputValue (pads : StreamPads) (cs : List Contribution) :
    mapped pads.present (outputValue pads cs) =
      (wiring pads .video cs).maps ++ (wiring pads .audio cs).maps := by
  have hkind (kind : StreamKind) :
      (if (pads.pad? kind).isSome then List.ofFn (outputValue pads cs kind) else []) =
        (wiring pads kind cs).maps := by
    cases h : pads.pad? kind with
    | none =>
        rw [wiring_of_none cs h]
        rfl
    | some pad => exact ofFn_outputValue cs (by simp [h])
  rw [mapped, StreamPads.flatMap_present, hkind, hkind]

theorem mapOption_outputValue (pads : StreamPads) (cs : List Contribution) (kind : StreamKind)
    (i : Fin cs.length) :
    mapOption (wiring pads kind cs) i =
      if (pads.pad? kind).isSome then ["-map", outputValue pads cs kind i] else [] := by
  cases h : pads.pad? kind with
  | none =>
      rw [wiring_of_none cs h]
      rfl
  | some pad =>
      have hi : i.val < (wiring pads kind cs).maps.length := by
        rw [(maps_wiring_of_isSome pads kind cs (by simp [h])).2]
        exact i.isLt
      rw [mapOption, outputValue, List.getElem?_eq_getElem hi]
      rfl

theorem outputGroups_eq (pads : StreamPads) (cs : List Contribution) :
    outputGroups (wiring pads .video cs) (wiring pads .audio cs) cs =
      outputWords pads.present cs (outputValue pads cs) := by
  have hplaces : cs.zipIdx = (List.finRange cs.length).map fun i => (cs[i], i.val) := by
    apply List.ext_getElem <;> simp
  rw [outputGroups, outputWords, hplaces, List.flatMap_map]
  apply List.flatMap_congr
  intro i _
  rw [StreamPads.flatMap_present, ← mapOption_outputValue, ← mapOption_outputValue]
  rfl

/-- The words of the outputs in front of the rest, with the values that the graph was made for. -/
theorem exists_outputWords {ids : Nat → String} {profiles : List Profile} {params : Parameters}
    {pads : StreamPads} {f : FanOut} (h : build ids profiles params pads = .ok f) :
    ∃ roles cs trailing, rolesOf profiles = .ok roles ∧ Assembled ids params pads roles cs f ∧
      trailingArguments params pads (active cs) roles.group = .ok trailing ∧
        f.arguments =
          outputWords pads.present (active cs) (outputValue pads (active cs)) ++ trailing := by
  obtain ⟨roles, cs, trailing, hroles, hassembled, htrailing, harguments⟩ :=
    exists_assembled_trailing h
  refine ⟨roles, cs, trailing, hroles, hassembled, htrailing, ?_⟩
  rw [harguments, hassembled.video_eq, hassembled.audio_eq, outputGroups_eq]

end Words

end FanOut

end Montage
