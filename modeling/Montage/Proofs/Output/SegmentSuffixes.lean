import Montage.Proofs.Output.StreamMap

/-!
# Suffixes for the segments of a group

The suffixes are collected from the delivery profiles, and the variants are numbered by
the profiles that take part. The two lists agree exactly if every profile takes part
(`segmentSuffixes_of_build_group`). A profile that keeps nothing moves the suffixes of
those behind it by one place (`segmentSuffixes_of_idle_profile`).
-/

namespace Montage.FanOut

variable {ids : Nat → String} {profiles : List Profile} {params : Parameters} {pads : StreamPads}
  {f : FanOut}

def segmentSuffix (params : Parameters) (v : Variant) : String :=
  Template.substitute params v.profile.suffixTemplate

theorem Grouped.map_profile_of_length_eq {group : Profile} {dropCopy : Bool}
    {variants : List Variant} (h : Grouped params profiles group dropCopy variants)
    (hlength : variants.length = (delivery profiles).length) :
    variants.map (·.profile) = delivery profiles := by
  obtain ⟨read, hread, rfl⟩ := map_eq_ok_iff.1 h.variants_eq
  have hprofiles := map_profile_of_readVariants hread
  rw [← hprofiles, List.length_map] at hlength
  rw [List.filter_sublist.eq_of_length hlength, hprofiles]

/-- Every delivery profile gives a suffix, also one that takes no part. So the suffixes are
those of the variants, one for each entry of the stream map, exactly if all take part. -/
theorem segmentSuffixes_of_build_group (hgroup : ∃ p ∈ profiles, IsGroup p)
    (h : build ids profiles params pads = .ok f) :
    ∃ (group : Profile) (dropCopy : Bool) (variants : List Variant)
      (bitrates : StreamKind → Vector String variants.length) (own : List String),
      Grouped params profiles group dropCopy variants ∧
      f.arguments = commandArguments pads dropCopy variants bitrates own ∧
      Text.split ' ' (" ".intercalate (streamMap pads variants.length)) =
        streamMap pads variants.length ∧
      f.segmentSuffixes =
        (delivery profiles).map (fun p => Template.substitute params p.suffixTemplate) ∧
      (f.segmentSuffixes.length = (streamMap pads variants.length).length ↔
        variants.map (·.profile) = delivery profiles) ∧
      (f.segmentSuffixes = variants.map (segmentSuffix params) ↔
        variants.map (·.profile) = delivery profiles) := by
  obtain ⟨group, dropCopy, variants, bitrates, own, hgrouped, harguments, _, _, hsuffixes⟩ :=
    exists_grouped hgroup h
  have hown : variants.map (segmentSuffix params) =
      (variants.map (·.profile)).map fun p => Template.substitute params p.suffixTemplate := by
    rw [List.map_map]
    rfl
  refine ⟨group, dropCopy, variants, bitrates, own, hgrouped, harguments,
    split_streamMap pads hgrouped.length_ne_zero, hsuffixes, ?_, ?_⟩
  · rw [hsuffixes, streamMap, List.length_map, List.length_map, List.length_range]
    constructor
    · intro hlength
      exact hgrouped.map_profile_of_length_eq hlength.symm
    · intro hall
      rw [← hall, List.length_map]
  · rw [hsuffixes]
    constructor
    · intro hsame
      have hlength := congrArg List.length hsame
      rw [List.length_map, List.length_map] at hlength
      exact hgrouped.map_profile_of_length_eq hlength.symm
    · intro hall
      rw [hown, hall]

/-- Both delivery profiles take part, and each gives a suffix with a placeholder. -/
theorem segmentSuffixes_of_build_group_two :
    let profile (identifier command suffix : String) : Profile :=
      { identifier, name := "p", input := .audioVisual, output := .audioVisual
        suffix := some suffix
        extensions := Std.TreeMap.ofList [(Template.commandKey, command)] }
    let group : Profile :=
      { identifier := "hls", name := "p", input := .audioVisual, output := .audioVisual
        extensions := Std.TreeMap.ofList
          [(Template.commandKey, "-f hls talk.m3u8"), (Profile.adaptiveKey, "Hls")] }
    let profiles := [profile "low" "-crf 30 -b:v 800k" "-#\x7bout.name.base\x7d.mp4", group,
      profile "high" "-vf fps=50 -preset slow" "-high.ts"]
    let params : Parameters := Std.TreeMap.ofList [("out.name.base", "talk")]
    let pads : StreamPads := ⟨some (.stream 0 'v'), some (.stream 0 'a')⟩
    ∃ (f : FanOut) (variants : List Variant), build (fun _ => "id") profiles params pads = .ok f ∧
      Grouped params profiles group true variants ∧ streamMap pads variants.length =
        ["v:0,a:0", "v:1,a:1"] ∧ f.segmentSuffixes = ["-talk.mp4", "-high.ts"] ∧
      f.segmentSuffixes = variants.map (segmentSuffix params) := by
  intro profile group profiles params pads
  have hgroup : ∃ p ∈ profiles, IsGroup p := by decide +kernel
  have hsuffixes : ((build (fun _ => "id") profiles params pads).toOption.map
      (·.segmentSuffixes)) = some ["-talk.mp4", "-high.ts"] := by decide +kernel
  have hlast : group? profiles = some group := rfl
  have hcount : ((readVariants params (delivery profiles)).map
      (·.filter (·.isActive true))).toOption.map List.length = some 2 := by decide +kernel
  obtain ⟨f, h, hsuffixes⟩ := exists_of_map_toOption hsuffixes
  obtain ⟨_, dropCopy, variants, _, _, hgrouped, _, _, _, hlengths, hsame⟩ :=
    segmentSuffixes_of_build_group hgroup h
  obtain rfl : dropCopy = true := hgrouped.dropCopy_eq
  obtain rfl := Option.some.inj (hlast.symm.trans hgrouped.group?_eq)
  rw [hgrouped.variants_eq] at hcount
  have hlength : variants.length = 2 := Option.some.inj hcount
  have hmap : streamMap pads variants.length = ["v:0,a:0", "v:1,a:1"] := by
    rw [hlength]
    decide +kernel
  have hall : variants.map (·.profile) = delivery profiles := by
    apply hlengths.1
    rw [hsuffixes, hmap]
    rfl
  exact ⟨f, variants, h, hgrouped, hmap, hsuffixes, hsame.2 hall⟩

/-- A profile that only scales and sets a bitrate keeps nothing. The only variant then has
the number 0, where the suffix of the other profile stands. -/
theorem segmentSuffixes_of_idle_profile :
    let profile (identifier command suffix : String) : Profile :=
      { identifier, name := "p", input := .audioVisual, output := .audioVisual
        suffix := some suffix
        extensions := Std.TreeMap.ofList [(Template.commandKey, command)] }
    let group : Profile :=
      { identifier := "hls", name := "p", input := .audioVisual, output := .audioVisual
        extensions := Std.TreeMap.ofList
          [(Template.commandKey, "-f hls #\x7bout.dir\x7d/#\x7bout.name\x7d_%v.m3u8"),
            (Profile.adaptiveKey, "HLS")] }
    let output := " #\x7bout.dir\x7d/#\x7bout.name\x7d#\x7bout.suffix\x7d"
    let profiles := [profile "thumb" ("-vf scale=320:-2 -b:v 300k" ++ output) "-thumb.mp4",
      profile "high" ("-c:v libx264 -b:v 3000k" ++ output) "-high.mp4", group]
    let params : Parameters := Std.TreeMap.ofList [("out.dir", "/out"), ("out.name.base", "talk")]
    let pads : StreamPads := ⟨some (.stream 0 'v'), some (.stream 0 'a')⟩
    ∃ (f : FanOut) (variants : List Variant), build (fun _ => "id") profiles params pads = .ok f ∧
      Grouped params profiles group true variants ∧ streamMap pads variants.length = ["v:0,a:0"] ∧
      variants.map (segmentSuffix params) = ["-high.mp4"] ∧
      f.segmentSuffixes = ["-thumb.mp4", "-high.mp4"] ∧
      f.segmentSuffixes.length ≠ (streamMap pads variants.length).length ∧
      f.segmentSuffixes[0]? ≠ (variants.map (segmentSuffix params))[0]? := by
  intro profile group output profiles params pads
  have hgroup : ∃ p ∈ profiles, IsGroup p := by decide +kernel
  have hsuffixes : ((build (fun _ => "id") profiles params pads).toOption.map
      (·.segmentSuffixes)) = some ["-thumb.mp4", "-high.mp4"] := by decide +kernel
  have hlast : group? profiles = some group := rfl
  have hvariants : ((readVariants params (delivery profiles)).map
      (·.filter (·.isActive true))).toOption.map (List.map (segmentSuffix params)) =
        some ["-high.mp4"] := by decide +kernel
  obtain ⟨f, h, hsuffixes⟩ := exists_of_map_toOption hsuffixes
  obtain ⟨_, dropCopy, variants, _, _, hgrouped, _⟩ := exists_grouped hgroup h
  obtain rfl : dropCopy = true := hgrouped.dropCopy_eq
  obtain rfl := Option.some.inj (hlast.symm.trans hgrouped.group?_eq)
  rw [hgrouped.variants_eq] at hvariants
  have hown : variants.map (segmentSuffix params) = ["-high.mp4"] := Option.some.inj hvariants
  have hlength : variants.length = 1 := by
    rw [← List.length_map (segmentSuffix params), hown]
    rfl
  have hmap : streamMap pads variants.length = ["v:0,a:0"] := by
    rw [hlength]
    decide +kernel
  refine ⟨f, variants, h, hgrouped, hmap, hown, hsuffixes, ?_, ?_⟩
  · rw [hsuffixes, hmap]
    decide
  · rw [hsuffixes, hown]
    decide

end Montage.FanOut
