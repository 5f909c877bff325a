import Montage.Proofs.Output.Variants
import Montage.Proofs.Text.Decimal

/-!
# The command of an adaptive group

The maps, the specifiers of options, the bitrates and the stream map of a group
are made apart from each other, and an encoder matches them by their numbers.
`arguments_of_build_group` says that they agree: all four go through the variants
that take part, in the order of their profiles.
-/

namespace Montage

/-- The bitrates of variants are their own if each has one; else all are
generated. -/
def SharedBitrates (kind : StreamKind) (group : Profile) (given : List (Option String))
    (bitrates : List String) : Prop :=
  given = bitrates.map some ∨
    none ∈ given ∧ bitrates = distributeBitrates given.length (kind.limits group)

theorem mapM_id_cases {α : Type} (given : List (Option α)) :
    (∃ values, given.mapM id = some values ∧ given = values.map some) ∨
      given.mapM id = none ∧ none ∈ given := by
  induction given with
  | nil => exact Or.inl ⟨[], rfl, rfl⟩
  | cons first rest ih =>
      cases first with
      | none => exact Or.inr ⟨rfl, List.mem_cons_self⟩
      | some value =>
          rcases ih with ⟨values, hvalues, rfl⟩ | ⟨hnone, hmem⟩
          · exact Or.inl ⟨value :: values, by simp [List.mapM_cons, hvalues], rfl⟩
          · exact Or.inr ⟨by simp [List.mapM_cons, hnone], List.mem_cons_of_mem _ hmem⟩

theorem sharedBitrates_variantBitrates (kind : StreamKind) (group : Profile)
    (given : List (Option String)) :
    SharedBitrates kind group given (variantBitrates kind group given) := by
  unfold variantBitrates
  rcases mapM_id_cases given with ⟨values, hvalues, hgiven⟩ | ⟨hnone, hmem⟩
  · rw [hvalues]
    exact Or.inl hgiven
  · rw [hnone]
    exact Or.inr ⟨hmem, rfl⟩

theorem SharedBitrates.length_eq {kind : StreamKind} {group : Profile}
    {given : List (Option String)} {bitrates : List String}
    (h : SharedBitrates kind group given bitrates) : bitrates.length = given.length := by
  rcases h with rfl | ⟨_, rfl⟩
  · exact (List.length_map _).symm
  · exact length_distributeBitrates _ _

namespace FanOut

variable {ids : Nat → String} {profiles : List Profile} {params : Parameters} {pads : StreamPads}
  {f : FanOut}

/-- The `-map` options of a variant for a kind of stream: the stream itself for a
single variant without a filter, else the pad of the variant. -/
def mapOptions (pads : StreamPads) (variants : List Variant) (kind : StreamKind) (index : Nat) :
    List String :=
  match pads.pad? kind with
  | some pad =>
    ["-map",
      if variants.map (·.filter kind) = [none] then pad.mapValue else (kind.outputPad index).text]
  | none => []

def variantGroup (pads : StreamPads) (dropCopy : Bool) (variants : List Variant) (index : Nat)
    (v : Variant) : List String :=
  mapOptions pads variants .video index ++ mapOptions pads variants .audio index ++
    v.options dropCopy index

def bitrateGroup (pads : StreamPads) {count : Nat} (bitrates : StreamKind → Vector String count)
    (index : Fin count) : List String :=
  (kinds pads).flatMap fun kind =>
    ["-b:" ++ kind.letter.toString ++ ":" ++ toString index.val, (bitrates kind)[index]]

def streamMap (pads : StreamPads) (count : Nat) : List String :=
  (List.range count).map (variantStreams (kinds pads))

/-- The arguments that the group itself adds. -/
def IsOwn (params : Parameters) (group : Profile) (own : List String) : Prop :=
  ∃ command, group.command = .ok command ∧
    own = Template.arguments (groupParameters params group) (Words.splitLoose command)

theorem split_streamMap (pads : StreamPads) {count : Nat} (h : count ≠ 0) :
    Text.split ' ' (" ".intercalate (streamMap pads count)) = streamMap pads count := by
  apply Text.split_intercalate rfl
  · simpa [streamMap] using h
  · intro entry hentry
    obtain ⟨i, _, rfl⟩ := List.mem_map.1 hentry
    have hblank : ' ' ∉ Nat.toDigits 10 i := by simpa using not_mem_toString (i := i) (by decide)
    unfold variantStreams kinds Clip.streamKinds
    cases pads.video.isSome <;> cases pads.audio.isSome <;>
      simp [StreamKind.letter, hblank]

theorem getElem?_maps_ofFilters (kind : StreamKind) (pad : Pad) {filters : List (Option String)}
    {index : Nat} (hindex : index < filters.length) :
    (Wiring.ofFilters kind pad filters).maps[index]? =
      some (if filters = [none] then pad.mapValue else (kind.outputPad index).text) := by
  match filters with
  | [] => cases hindex
  | [none] => rw [Nat.lt_one_iff.1 hindex]; rfl
  | [some filter] => rw [Nat.lt_one_iff.1 hindex]; rfl
  | first :: second :: rest =>
      rw [if_neg (by simp)]
      show ((List.range _).map _)[index]? = _
      rw [List.getElem?_map, List.getElem?_range hindex]
      rfl

theorem mapOption_wiring (pads : StreamPads) (kind : StreamKind) {variants : List Variant}
    {cs : List Contribution} (hfilters : cs.map (·.filter kind) = variants.map (·.filter kind))
    {index : Nat} (hindex : index < variants.length) :
    mapOption (wiring pads kind cs) index = mapOptions pads variants kind index := by
  have hlength : index < (variants.map (·.filter kind)).length := by simpa using hindex
  unfold mapOption mapOptions
  cases hpad : pads.pad? kind with
  | none =>
      rw [wiring_of_none cs hpad]
      rfl
  | some pad =>
      rw [wiring_of_some cs hpad, hfilters, getElem?_maps_ofFilters kind pad hlength]

def placed (dropCopy : Bool) (variants : List Variant) : List Contribution :=
  variants.zipIdx.map fun x => x.1.contribution dropCopy x.2

@[simp] theorem length_placed (dropCopy : Bool) (variants : List Variant) :
    (placed dropCopy variants).length = variants.length := by
  simp [placed]

theorem map_placed {α : Type} {g : Contribution → α} {g' : Variant → α} {dropCopy : Bool}
    (h : ∀ v index, g (Variant.contribution dropCopy index v) = g' v) (variants : List Variant) :
    (placed dropCopy variants).map g = variants.map g' := by
  rw [placed, List.map_map]
  conv_rhs => rw [← List.zipIdx_map_fst 0 variants, List.map_map]
  exact List.map_congr_left fun x _ => h x.1 x.2

theorem outputGroups_placed (pads : StreamPads) (dropCopy : Bool) (variants : List Variant) :
    outputGroups (wiring pads .video (placed dropCopy variants))
        (wiring pads .audio (placed dropCopy variants)) (placed dropCopy variants) =
      variants.zipIdx.flatMap fun x => variantGroup pads dropCopy variants x.2 x.1 := by
  have hplaces : (placed dropCopy variants).zipIdx =
      variants.zipIdx.map fun x => (x.1.contribution dropCopy x.2, x.2) := by
    apply List.ext_getElem <;> simp [placed]
  have hfilters (kind : StreamKind) :
      (placed dropCopy variants).map (·.filter kind) = variants.map (·.filter kind) :=
    map_placed (fun _ _ => rfl) variants
  rw [outputGroups, hplaces, List.flatMap_map]
  apply List.flatMap_congr
  intro x hx
  have hindex : x.2 < variants.length := by
    simpa using (List.mem_zipIdx hx).2.1
  rw [variantGroup, ← mapOption_wiring pads .video (hfilters .video) hindex,
    ← mapOption_wiring pads .audio (hfilters .audio) hindex]
  rfl

theorem exists_bitrates (group : Profile) (dropCopy : Bool) (variants : List Variant) :
    ∃ bitrates : StreamKind → Vector String variants.length, ∀ kind,
      SharedBitrates kind group (variants.map (·.bitrate kind)) (bitrates kind).toList ∧
        (bitrates kind).toList =
          variantBitrates kind group ((placed dropCopy variants).map (·.bitrate kind)) := by
  have hgiven (kind : StreamKind) :
      (placed dropCopy variants).map (·.bitrate kind) = variants.map (·.bitrate kind) :=
    map_placed (fun _ _ => Variant.bitrate_contribution kind) variants
  have hshared (kind : StreamKind) :=
    sharedBitrates_variantBitrates kind group (variants.map (·.bitrate kind))
  refine ⟨fun kind => ⟨(variantBitrates kind group (variants.map (·.bitrate kind))).toArray, ?_⟩,
    fun kind => ⟨?_, ?_⟩⟩
  · simpa using (hshared kind).length_eq
  · simpa using hshared kind
  · rw [hgiven kind]
    simp

theorem bitrateOptions_eq (pads : StreamPads) {count : Nat}
    (bitrates : StreamKind → Vector String count) :
    (List.range count).flatMap
        (bitrateOptions (kinds pads) fun kind => (bitrates kind).toList) =
      (List.finRange count).flatMap (bitrateGroup pads bitrates) := by
  rw [← List.map_coe_finRange_eq_range, List.flatMap_map]
  apply List.flatMap_congr
  intro index _
  apply List.flatMap_congr
  intro kind _
  simp

/-- The profiles describe a group, and `variants` are those of its delivery profiles that
take part, each with its directives. -/
structure Grouped (params : Parameters) (profiles : List Profile) (group : Profile)
    (dropCopy : Bool) (variants : List Variant) : Prop where
  group?_eq : group? profiles = some group
  dropCopy_eq : dropCopy = decide (1 < (delivery profiles).length)
  variants_eq : (readVariants params (delivery profiles)).map
    (·.filter (·.isActive dropCopy)) = .ok variants
  variants_ne_nil : variants ≠ []

theorem Grouped.length_ne_zero {group : Profile} {dropCopy : Bool} {variants : List Variant}
    (h : Grouped params profiles group dropCopy variants) : variants.length ≠ 0 :=
  fun hlength => h.variants_ne_nil (List.length_eq_zero_iff.1 hlength)

def commandArguments (pads : StreamPads) (dropCopy : Bool) (variants : List Variant)
    (bitrates : StreamKind → Vector String variants.length) (own : List String) : List String :=
  variants.zipIdx.flatMap (fun x => variantGroup pads dropCopy variants x.2 x.1) ++
    ((List.finRange variants.length).flatMap (bitrateGroup pads bitrates) ++
      ["-var_stream_map", " ".intercalate (streamMap pads variants.length)] ++ own)

theorem groupArguments_eq_ok {group : Profile} {dropCopy : Bool} {variants : List Variant}
    {trailing : List String}
    (h : groupArguments params pads group (placed dropCopy variants) = .ok trailing) :
    ∃ (bitrates : StreamKind → Vector String variants.length) (own : List String),
      (∀ kind, SharedBitrates kind group (variants.map (·.bitrate kind)) (bitrates kind).toList) ∧
      IsOwn params group own ∧
      trailing = (List.finRange variants.length).flatMap (bitrateGroup pads bitrates) ++
        ["-var_stream_map", " ".intercalate (streamMap pads variants.length)] ++ own := by
  obtain ⟨command, hcommand, h⟩ := bind_eq_ok_iff.1 h
  obtain ⟨bitrates, hbitrates⟩ := exists_bitrates group dropCopy variants
  have htexts :
      (fun kind => variantBitrates kind group ((placed dropCopy variants).map (·.bitrate kind))) =
        fun kind => (bitrates kind).toList := by
    funext kind
    rw [(hbitrates kind).2]
  refine ⟨bitrates, _, fun kind => (hbitrates kind).1, ⟨command, hcommand, rfl⟩, ?_⟩
  rw [← pure_eq_ok_iff.1 h, htexts, ← bitrateOptions_eq, length_placed]
  rfl

theorem exists_grouped (hgroup : ∃ p ∈ profiles, IsGroup p)
    (h : build ids profiles params pads = .ok f) :
    ∃ (group : Profile) (dropCopy : Bool) (variants : List Variant)
      (bitrates : StreamKind → Vector String variants.length) (own : List String),
      Grouped params profiles group dropCopy variants ∧
      f.arguments = commandArguments pads dropCopy variants bitrates own ∧
      (∀ kind, SharedBitrates kind group (variants.map (·.bitrate kind)) (bitrates kind).toList) ∧
      IsOwn params group own ∧
      f.segmentSuffixes =
        (delivery profiles).map fun p => Template.substitute params p.suffixTemplate := by
  obtain ⟨roles, cs, trailing, hroles, hassembled, htrailing, harguments⟩ :=
    exists_assembled_trailing h
  obtain ⟨group, hgroup⟩ := exists_group? hgroup
  obtain rfl := rolesOf_eq_ok hroles
  rw [hgroup] at hassembled htrailing
  obtain ⟨read, hread, rfl⟩ := variants_eq_ok hassembled.contributions_eq
  have hactive : active (numbered _ 0 read) = placed _ _ :=
    active_numbered (decide (1 < (delivery profiles).length)) 0 read
  rw [hactive] at htrailing harguments
  obtain ⟨bitrates, own, hbitrates, hown, rfl⟩ := groupArguments_eq_ok htrailing
  refine ⟨group, _, _, bitrates, own, ⟨hgroup, rfl, ?_, ?_⟩, ?_, hbitrates, hown,
    hassembled.segmentSuffixes_eq⟩
  · exact map_eq_ok_iff.2 ⟨read, hread, rfl⟩
  · intro hnil
    apply hassembled.active_ne_nil
    exact hactive.trans (by rw [hnil]; rfl)
  · have hvideo := hassembled.video_eq
    have haudio := hassembled.audio_eq
    rw [hactive] at hvideo haudio
    rw [harguments, hvideo, haudio, outputGroups_placed, commandArguments]

/-- All parts of the command of a group go through the variants that take part: the
maps and options, the bitrates and the stream map. -/
theorem arguments_of_build_group (hgroup : ∃ p ∈ profiles, IsGroup p)
    (h : build ids profiles params pads = .ok f) :
    ∃ (group : Profile) (dropCopy : Bool) (variants : List Variant)
      (bitrates : StreamKind → Vector String variants.length) (own : List String),
      Grouped params profiles group dropCopy variants ∧
      f.arguments = commandArguments pads dropCopy variants bitrates own ∧
      (∀ index, ∀ v ∈ variants,
        List.Forall₂ (Numbered index) (v.kept dropCopy) (v.options dropCopy index)) ∧
      Text.split ' ' (" ".intercalate (streamMap pads variants.length)) =
        streamMap pads variants.length ∧
      (∀ kind, SharedBitrates kind group (variants.map (·.bitrate kind)) (bitrates kind).toList) ∧
      IsOwn params group own := by
  obtain ⟨group, dropCopy, variants, bitrates, own, hgrouped, harguments, hbitrates, hown, _⟩ :=
    exists_grouped hgroup h
  exact ⟨group, dropCopy, variants, bitrates, own, hgrouped, harguments,
    fun index v _ => v.numbered_options dropCopy index, split_streamMap pads hgrouped.length_ne_zero,
    hbitrates, hown⟩

/-- Three delivery profiles around a group, of which the second keeps nothing: the third
one is variant 1, and its limit is the bitrate. -/
theorem arguments_of_build_group_three :
    let profile (identifier command : String) : Profile :=
      { identifier, name := "p", input := .audioVisual, output := .audioVisual
        extensions := Std.TreeMap.ofList [(Template.commandKey, command)] }
    let group : Profile :=
      { identifier := "hls", name := "p", input := .audioVisual, output := .audioVisual
        extensions := Std.TreeMap.ofList
          [(Template.commandKey, "-f hls #\x7bout.name\x7d.m3u8"), (Profile.adaptiveKey, "HLS")] }
    let profiles := [profile "low" "-crf 30 -b:v 800k", group, profile "thumb" "-vf fps=1 -b:v 90k",
      profile "high" "-vf fps=50 -preset slow -maxrate 3000k x#\x7bout.name\x7d"]
    let params : Parameters := Std.TreeMap.ofList [("out.name.base", "talk")]
    let pads : StreamPads := ⟨some (.stream 0 'v'), none⟩
    ∃ (f : FanOut) (variants : List Variant)
      (bitrates : StreamKind → Vector String variants.length) (own : List String),
      build (fun _ => "id") profiles params pads = .ok f ∧
      Grouped params profiles group true variants ∧ variants.length = 2 ∧
      IsOwn params group own ∧
      f.arguments = commandArguments pads true variants bitrates own ∧
      f.arguments = ["-map", "[ov0]", "-crf:v:0", "30", "-map", "[ov1]", "-preset:v:1", "slow",
        "-maxrate:v:1", "3000k", "-b:v:0", "800k", "-b:v:1", "3000k", "-var_stream_map", "v:0 v:1",
        "-f", "hls", "talk.m3u8"] := by
  intro profile group profiles params pads
  have hgroup : ∃ p ∈ profiles, IsGroup p := by decide +kernel
  have harguments : (build (fun _ => "id") profiles params pads).toOption.map (·.arguments) =
      some ["-map", "[ov0]", "-crf:v:0", "30", "-map", "[ov1]", "-preset:v:1", "slow",
        "-maxrate:v:1", "3000k", "-b:v:0", "800k", "-b:v:1", "3000k", "-var_stream_map", "v:0 v:1",
        "-f", "hls", "talk.m3u8"] := by decide +kernel
  have hcount : ((readVariants params (delivery profiles)).map
      (·.filter (·.isActive true))).toOption.map List.length = some 2 := by decide +kernel
  have hlast : group? profiles = some group := rfl
  obtain ⟨f, h, harguments⟩ := exists_of_map_toOption harguments
  obtain ⟨_, dropCopy, variants, bitrates, own, hgrouped, hall, _, _, _, hown⟩ :=
    arguments_of_build_group hgroup h
  obtain rfl : dropCopy = true := hgrouped.dropCopy_eq
  obtain rfl := Option.some.inj (hlast.symm.trans hgrouped.group?_eq)
  rw [hgrouped.variants_eq] at hcount
  exact ⟨f, variants, bitrates, own, h, hgrouped, Option.some.inj hcount, hown, hall, harguments⟩

end FanOut

end Montage
