import Montage.Proofs.Output.Reading
import Montage.Proofs.Output.SegmentSuffixes

/-!
# Targets of their own in an adaptive output

Only the group of an adaptive output writes files, so the words that name the output of a
delivery profile are left out of its command. They are found by the placeholder
`#{out.name}` alone. A command that ends in another spelling of its file keeps that word:
it is resolved without the parameters that name outputs and stands last among the options
of the variant (`options_of_endsIn`).
-/

namespace Montage

namespace Template

/-- The word resolves to the text where some of the parameters may be missing. -/
def ResolvesTo (params : Parameters) (word text : String) : Prop :=
  ∃ params' : Parameters,
    (∀ key value : String, params'[key]? = some value → params[key]? = some value) ∧
      substitute params' word = text

end Template

namespace FanOut

open Template (ResolvesTo)

variable {ids : Nat → String} {profiles : List Profile} {params : Parameters} {pads : StreamPads}
  {f : FanOut} {p : Profile} {words : List String} {last : String} {front : List Directive}

def EndsIn (p : Profile) (words : List String) (last : String) : Prop :=
  ∃ command, p.command = .ok command ∧ Words.tokenize command = .ok (words ++ [last])

def NamesOutput (word : String) : Prop :=
  Text.contains (Template.placeholder "out.name") word = true

instance (word : String) : Decidable (NamesOutput word) := inferInstanceAs (Decidable (_ = _))

def resolved (params : Parameters) (word : String) : String :=
  Template.substitute (params.eraseMany outputKeys) word

/-- The words in front are read to their end, so that what is behind them is not the value
of an option. -/
def ReadsTo (params : Parameters) (p : Profile) (words : List String) (front : List Directive) :
    Prop :=
  Directive.parse p.identifier true (variantArguments params words) = .ok front ∧
    front.getLast? ≠ some (.input none)

theorem getElem?_eraseMany_outputKeys (params : Parameters) (key : String) :
    (params.eraseMany outputKeys)[key]? = if key ∈ outputKeys then none else params[key]? := by
  show (((params.erase "out.dir").erase "out.name").erase "out.suffix")[key]? = _
  simp only [Std.TreeMap.getElem?_erase, Std.LawfulEqCmp.compare_eq_iff_eq, outputKeys,
    List.mem_cons, List.not_mem_nil, or_false, eq_comm (b := key)]
  split_ifs <;> simp_all

theorem resolvesTo_resolved (params : Parameters) (word : String) :
    ResolvesTo params word (resolved params word) := by
  refine ⟨_, fun key value h => ?_, rfl⟩
  rw [getElem?_eraseMany_outputKeys] at h
  split at h
  · cases h
  · exact h

theorem variantArguments_singleton (params : Parameters) (word : String) :
    variantArguments params [word] =
      if NamesOutput word ∨ Text.isBlankText (resolved params word) = true then []
      else [resolved params word] := by
  by_cases hname : Text.contains (Template.placeholder "out.name") word = true <;>
    by_cases hblank : Text.isBlankText (resolved params word) = true <;>
    simp_all [variantArguments, NamesOutput, Template.arguments, resolved]

/-- The options that the last word leaves to variant `index`. -/
def lastOptions (params : Parameters) (index : Nat) (last : String) : List String :=
  if NamesOutput last ∨ Text.isBlankText (resolved params last) = true then []
  else if resolved params last = "-i" then []
  else [(Part.variant index).keep (resolved params last)]

theorem lastOptions_of_file {index : Nat}
    (h : Text.startsWith "-" (resolved params last) = false) :
    lastOptions params index last =
      if NamesOutput last ∨ Text.isBlankText (resolved params last) = true then []
      else [resolved params last] := by
  have hinput : resolved params last ≠ "-i" := by
    intro hinput
    rw [hinput] at h
    exact absurd h (by decide)
  rw [lastOptions, if_neg hinput, Part.keep, h]
  rfl

/-- No text of a target stands among options and what it leaves behind them exactly if it
leaves nothing and does not stand among the options. -/
theorem forall_not_mem_lastOptions_iff {index : Nat}
    (h : Text.startsWith "-" (resolved params last) = false) (options : List String) :
    (∀ text, ResolvesTo params last text → text ∉ options ++ lastOptions params index last) ↔
      (NamesOutput last ∨ Text.isBlankText (resolved params last) = true) ∧
        ∀ text, ResolvesTo params last text → text ∉ options := by
  rw [lastOptions_of_file h]
  constructor
  · intro hfree
    refine ⟨?_, fun text htext hmem => hfree text htext (List.mem_append_left _ hmem)⟩
    by_contra hleft
    rw [if_neg hleft] at hfree
    exact hfree _ (resolvesTo_resolved params last)
      (List.mem_append_right _ (List.mem_singleton_self _))
  · rintro ⟨hgone, hfree⟩
    rw [if_pos hgone, List.append_nil]
    exact hfree

theorem options_of_parse_singleton {profile argument : String} {ds : List Directive}
    (h : Directive.parse profile true [argument] = .ok ds) (index : Nat) (dropCopy : Bool) :
    ds.flatMap (Directive.options (.variant index) dropCopy) =
      if argument = "-i" then [] else [(Part.variant index).keep argument] := by
  cases hrole : OptionRole.of true argument with
  | other =>
    have hinput : argument ≠ "-i" := by
      rintro rfl
      cases hrole
    rw [Directive.parse_cons_of_other hrole] at h
    cases h
    rw [if_neg hinput]
    rfl
  | input =>
    rw [Directive.parse_singleton_of_input hrole] at h
    cases h
    rw [if_pos (OptionRole.eq_of_of_eq_input hrole)]
    rfl
  | nestedGraph =>
    rw [Directive.parse_cons_of_nestedGraph hrole] at h
    cases h
  | _ =>
    rw [Directive.parse_singleton (by simp [hrole]) (by simp [hrole]) (by simp [hrole])] at h
    cases h

/-- The options of a variant are those of the words in front, and what the last word leaves. -/
theorem options_of_endsIn {ds : List Directive} (hds : variantDirectives params p = .ok ds)
    (hends : EndsIn p words last) (hreads : ReadsTo params p words front) (index : Nat)
    (dropCopy : Bool) :
    ds.flatMap (Directive.options (.variant index) dropCopy) =
      front.flatMap (Directive.options (.variant index) dropCopy) ++
        lastOptions params index last := by
  obtain ⟨command, hcommand, hwords⟩ := hends
  obtain ⟨command', words', hcommand', hwords', hparse⟩ := variantDirectives_eq_ok_iff.1 hds
  obtain rfl := Except.ok.inj (hcommand.symm.trans hcommand')
  obtain rfl := Except.ok.inj (hwords.symm.trans hwords')
  rw [variantArguments_append, Directive.parse_append hreads.1 hreads.2] at hparse
  obtain ⟨tail, htail, rfl⟩ := map_eq_ok_iff.1 hparse
  rw [List.flatMap_append, List.append_cancel_left_eq, lastOptions]
  rw [variantArguments_singleton] at htail
  by_cases hgone : NamesOutput last ∨ Text.isBlankText (resolved params last) = true
  · rw [if_pos hgone] at htail ⊢
    cases htail
    rfl
  · rw [if_neg hgone] at htail ⊢
    exact options_of_parse_singleton htail index dropCopy

/-- A command of a variant leaves its last word among the options, unless that word has the
placeholder or resolves to nothing. Only then, and if no option in front looks like it, the
target does not get into the command of the group. -/
theorem lastWords_of_build_group (hgroup : ∃ p ∈ profiles, IsGroup p)
    (h : build ids profiles params pads = .ok f) :
    ∃ (group : Profile) (dropCopy : Bool) (variants : List Variant)
      (bitrates : StreamKind → Vector String variants.length) (own : List String),
      Grouped params profiles group dropCopy variants ∧
      f.arguments = commandArguments pads dropCopy variants bitrates own ∧
      ∀ (index : Nat) (v : Variant), variants[index]? = some v → ∀ words last front,
        EndsIn v.profile words last → ReadsTo params v.profile words front →
        v.options dropCopy index =
            front.flatMap (Directive.options (.variant index) dropCopy) ++
              lastOptions params index last ∧
          (Text.startsWith "-" (resolved params last) = false →
            ((∀ text, ResolvesTo params last text → text ∉ v.options dropCopy index) ↔
              (NamesOutput last ∨ Text.isBlankText (resolved params last) = true) ∧
                ∀ text, ResolvesTo params last text →
                  text ∉ front.flatMap (Directive.options (.variant index) dropCopy))) := by
  obtain ⟨group, dropCopy, variants, bitrates, own, hgrouped, harguments, _, _, _⟩ :=
    exists_grouped hgroup h
  refine ⟨group, dropCopy, variants, bitrates, own, hgrouped, harguments, ?_⟩
  intro index v hv words last front hends hreads
  obtain ⟨read, hread, rfl⟩ := map_eq_ok_iff.1 hgrouped.variants_eq
  have hmem : v ∈ read := (List.mem_filter.1 (List.mem_of_getElem? hv)).1
  have hdirectives := (mem_readVariants hread hmem).2
  have hoptions : v.options dropCopy index =
      front.flatMap (Directive.options (.variant index) dropCopy) ++
        lastOptions params index last :=
    options_of_endsIn hdirectives hends hreads index dropCopy
  refine ⟨hoptions, fun hfile => ?_⟩
  rw [hoptions]
  exact forall_not_mem_lastOptions_iff hfile _

/-- One command spells out its file, and that is left; the other one has the placeholder. -/
theorem lastWords_of_build_group_two :
    let profile (identifier command : String) : Profile :=
      { identifier, name := "p", input := .audioVisual, output := .audioVisual
        extensions := Std.TreeMap.ofList [(Template.commandKey, command)] }
    let low := profile "low" "-c:v libx264 /out/low.mp4"
    let high := profile "high" "-crf 20 #\x7bout.dir\x7d/#\x7bout.name\x7d.mp4"
    let group : Profile :=
      { identifier := "hls", name := "p", input := .audioVisual, output := .audioVisual
        extensions := Std.TreeMap.ofList
          [(Template.commandKey, "-f hls talk.m3u8"), (Profile.adaptiveKey, "HLS")] }
    let profiles := [low, high, group]
    let params : Parameters := Std.TreeMap.ofList [("out.dir", "/out"), ("out.name.base", "talk")]
    let pads : StreamPads := ⟨some (.stream 0 'v'), none⟩
    ∃ (f : FanOut) (variants : List Variant),
      build (fun _ => "id") profiles params pads = .ok f ∧
      Grouped params profiles group true variants ∧ variants.map (·.profile) = [low, high] ∧
      (∀ v, variants[0]? = some v →
        v.options true 0 = ["-c:v:0", "libx264"] ++ ["/out/low.mp4"] ∧
          ¬ ∀ text, ResolvesTo params "/out/low.mp4" text → text ∉ v.options true 0) ∧
      ∀ v, variants[1]? = some v → v.options true 1 = ["-crf:v:1", "20"] ++ [] := by
  intro profile low high group profiles params pads
  have hgroup : ∃ p ∈ profiles, IsGroup p := by decide +kernel
  have hsome : (build (fun _ => "id") profiles params pads).toOption.map (·.adaptive) =
      some true := by decide +kernel
  have hcount : ((readVariants params (delivery profiles)).map
      (·.filter (·.isActive true))).toOption.map List.length = some 2 := by decide +kernel
  have hlast : group? profiles = some group := rfl
  have hlow : EndsIn low ["-c:v", "libx264"] "/out/low.mp4" :=
    ⟨"-c:v libx264 /out/low.mp4", mem_toOption_iff.1 (by decide +kernel),
      mem_toOption_iff.1 (by decide +kernel)⟩
  have hhigh : EndsIn high ["-crf", "20"] "#\x7bout.dir\x7d/#\x7bout.name\x7d.mp4" :=
    ⟨"-crf 20 #\x7bout.dir\x7d/#\x7bout.name\x7d.mp4", mem_toOption_iff.1 (by decide +kernel),
      mem_toOption_iff.1 (by decide +kernel)⟩
  have hreadsLow : ReadsTo params low ["-c:v", "libx264"] [.codec "-c:v" "libx264"] :=
    ⟨mem_toOption_iff.1 (by decide +kernel), by decide⟩
  have hreadsHigh : ReadsTo params high ["-crf", "20"] [.other "-crf", .other "20"] :=
    ⟨mem_toOption_iff.1 (by decide +kernel), by decide⟩
  obtain ⟨f, h, _⟩ := exists_of_map_toOption hsome
  obtain ⟨_, dropCopy, variants, _, _, hgrouped, _, hwords⟩ := lastWords_of_build_group hgroup h
  obtain rfl : dropCopy = true := hgrouped.dropCopy_eq
  obtain rfl := Option.some.inj (hlast.symm.trans hgrouped.group?_eq)
  rw [hgrouped.variants_eq] at hcount
  have hprofiles := hgrouped.map_profile_of_length_eq (Option.some.inj hcount)
  have hplace {index : Nat} {v : Variant} (hv : variants[index]? = some v) :
      some v.profile = [low, high][index]? := by
    show _ = (delivery profiles)[index]?
    rw [← hprofiles, List.getElem?_map, hv]
    rfl
  refine ⟨f, variants, h, hgrouped, hprofiles, fun v hv => ?_, fun v hv => ?_⟩
  · rw [← Option.some.inj (hplace hv)] at hlow hreadsLow
    obtain ⟨hoptions, hfree⟩ := hwords 0 v hv _ _ _ hlow hreadsLow
    refine ⟨hoptions.trans (by decide +kernel), fun hall => ?_⟩
    exact absurd ((hfree (by decide +kernel)).1 hall).1 (by decide +kernel)
  · rw [← Option.some.inj (hplace hv)] at hhigh hreadsHigh
    exact (hwords 1 v hv _ _ _ hhigh hreadsHigh).1.trans (by decide +kernel)

/-- A command that spells out its file writes it in the middle of the adaptive run. -/
theorem arguments_of_spelled_target :
    let low : Profile :=
      { identifier := "low", name := "p", input := .audioVisual, output := .audioVisual
        extensions := Std.TreeMap.ofList
          [(Template.commandKey, "-c:v libx264 -b:v 800k /out/low.mp4")] }
    let group : Profile :=
      { identifier := "hls", name := "p", input := .audioVisual, output := .audioVisual
        extensions := Std.TreeMap.ofList
          [(Template.commandKey, "-f hls #\x7bout.dir\x7d/#\x7bout.name\x7d.m3u8"),
            (Profile.adaptiveKey, "HLS")] }
    let params : Parameters := Std.TreeMap.ofList [("out.dir", "/out"), ("out.name.base", "talk")]
    let pads : StreamPads := ⟨some (.stream 0 'v'), none⟩
    EndsIn low ["-c:v", "libx264", "-b:v", "800k"] "/out/low.mp4" ∧
      ReadsTo params low ["-c:v", "libx264", "-b:v", "800k"]
        [.codec "-c:v" "libx264", .bitrate .video "-b:v" "800k"] ∧
      ResolvesTo params "/out/low.mp4" "/out/low.mp4" ∧
      (variant params false low 0).toOption.map (·.options) =
        some ["-c:v:0", "libx264", "/out/low.mp4"] ∧
      (build (fun _ => "id") [low, group] params pads).toOption.map (·.arguments) =
        some ["-map", "0:v", "-c:v:0", "libx264", "/out/low.mp4", "-b:v:0", "800k",
          "-var_stream_map", "v:0", "-f", "hls", "/out/talk.m3u8"] := by
  intro low group params pads
  refine ⟨⟨"-c:v libx264 -b:v 800k /out/low.mp4", mem_toOption_iff.1 (by decide +kernel),
    mem_toOption_iff.1 (by decide +kernel)⟩,
    ⟨mem_toOption_iff.1 (by decide +kernel), by decide⟩,
    ⟨params, fun _ _ h => h, by decide +kernel⟩, by decide +kernel, by decide +kernel⟩

end FanOut

end Montage
