import Mathlib.Data.List.Chain
import Mathlib.Data.List.Pairwise
import Montage.Proofs.Output.OwnOutput

/-!
# Copied streams

A stream that is split cannot be copied, so the codecs that copy are dropped where a stream
is split. Which options choose a codec is decided by their spelling, and whether anything
will be split by the number of profiles, before it is known which of them take part. So
`copies_of_build` gives exact conditions: behind a split a codec that copies is left exactly
if it is spelled `-c` or `-codec`, or stands where the value of a codec is expected; without
a split all such codecs are left exactly if there is one profile, or none of them is of a
spelling that is looked for. `copies_of_bare_codec_and_idle_profile` shows both failures.
-/

namespace Montage

/-- The option chooses a codec, for all streams or for some. -/
def ChoosesCodec (option : String) : Prop :=
  option ∈ ["-c", "-codec", "-vcodec", "-acodec"] ∨ Text.startsWith "-c:" option = true ∨
    Text.startsWith "-codec:" option = true

instance (option : String) : Decidable (ChoosesCodec option) := inferInstanceAs (Decidable (_ ∨ _))

/-- The value behind an option is not `copy`, if the option chooses a codec. -/
def NotCopied (option value : String) : Prop := ¬ (ChoosesCodec option ∧ value = "copy")

instance : DecidableRel NotCopied := fun _ _ => inferInstanceAs (Decidable (¬ _))

def NoCopy (arguments : List String) : Prop := arguments.IsChain NotCopied

instance (arguments : List String) : Decidable (NoCopy arguments) :=
  inferInstanceAs (Decidable (arguments.IsChain _))

theorem notCopied_of_not_choosesCodec {option : String} (h : ¬ ChoosesCodec option)
    (value : String) : NotCopied option value := fun hcopy => h hcopy.1

theorem noCopy_append_iff {front arguments : List String} (h : ∀ a ∈ front, ¬ ChoosesCodec a) :
    NoCopy (front ++ arguments) ↔ NoCopy arguments := by
  induction front with
  | nil => rfl
  | cons a front ih =>
    obtain ⟨ha, hfront⟩ := List.forall_mem_cons.1 h
    rw [← ih hfront, NoCopy, List.cons_append, List.isChain_cons]
    exact and_iff_right fun value _ => notCopied_of_not_choosesCodec ha value

/-- Groups that begin with a map do not touch each other. -/
theorem noCopy_flatten_iff {groups : List (List String)}
    (h : ∀ g ∈ groups, g.head? = some "-map") :
    NoCopy groups.flatten ↔ ∀ g ∈ groups, NoCopy g := by
  have hnil : [] ∉ groups := fun hmem => Option.some_ne_none _ (h [] hmem).symm
  rw [NoCopy, List.isChain_flatten hnil]
  refine and_iff_left (List.Pairwise.isChain ?_)
  refine List.pairwise_of_forall_mem_list fun g _ g' hg' option _ value hvalue hcopy => ?_
  rw [h g' hg'] at hvalue
  cases hvalue
  exact absurd hcopy.2 (by decide)

theorem choosesCodec_iff_of_other {option : String} (h : OptionRole.of false option = .other) :
    ChoosesCodec option ↔ option = "-c" ∨ option = "-codec" := by
  have hcodec : isCodecOption option = false := by
    simp only [OptionRole.of] at h
    split_ifs at h with _ _ _ _ hcodec <;> exact Bool.eq_false_of_not_eq_true hcodec
  simp only [isCodecOption, Bool.or_eq_false_iff] at hcodec
  obtain ⟨⟨⟨hshort, hlong⟩, hvideo⟩, haudio⟩ := hcodec
  constructor
  · rintro (hlisted | hstart | hstart)
    · simp only [List.mem_cons, List.not_mem_nil, or_false] at hlisted
      rcases hlisted with rfl | rfl | rfl | rfl
      · exact Or.inl rfl
      · exact Or.inr rfl
      · exact absurd hvideo (by decide)
      · exact absurd haudio (by decide)
    · exact absurd hstart (by simp [hshort])
    · exact absurd hstart (by simp [hlong])
  · rintro (rfl | rfl) <;> decide

namespace Directive

/-- Behind the first directive, the second one reads as the value of a codec that copies. -/
def LetsCopy (d e : Directive) : Prop :=
  e = other "copy" ∧ (d = other "-c" ∨ d = other "-codec" ∨
    ∃ option value, d = codec option value ∧ ChoosesCodec value)

variable {d e : Directive}

theorem noCopy_arguments (hread : d.IsRead false) (h : d.survives true = true) :
    NoCopy d.arguments := by
  cases d with
  | codec option value =>
    refine List.isChain_pair.2 fun hcopy => ?_
    rw [hcopy.2] at h
    cases h
  | maxRate option value => exact absurd (hread option rfl) (OptionRole.of_false_cases option).1
  | other argument => exact List.isChain_singleton _
  | filter kind option value => cases h
  | input file => cases h
  | bitrate kind option value => cases h

theorem exists_getLast?_iff (hread : d.IsRead false) (h : d.survives true = true) :
    (∃ option ∈ d.arguments.getLast?, ChoosesCodec option) ↔ d = other "-c" ∨ d = other "-codec" ∨
      ∃ option value, d = codec option value ∧ ChoosesCodec value := by
  cases d with
  | codec option value => simp [arguments]
  | other argument => simp [arguments, choosesCodec_iff_of_other (hread argument rfl)]
  | maxRate option value => exact absurd (hread option rfl) (OptionRole.of_false_cases option).1
  | filter kind option value => cases h
  | input file => cases h
  | bitrate kind option value => cases h

theorem head?_eq_copy_iff (hread : e.IsRead false) (h : e.survives true = true) :
    e.arguments.head? = some "copy" ↔ e = other "copy" := by
  cases e with
  | codec option value =>
    refine iff_of_false (fun hcopy => ?_) (by simp)
    have hrole := hread "copy" hcopy
    revert hrole
    simp only [role]
    decide
  | other argument => simp [arguments]
  | maxRate option value => exact absurd (hread option rfl) (OptionRole.of_false_cases option).1
  | filter kind option value => cases h
  | input file => cases h
  | bitrate kind option value => cases h

theorem notCopied_iff (hd : d.IsRead false) (he : e.IsRead false)
    (hsurvives : d.survives true = true) (hsurvives' : e.survives true = true) :
    (∀ option ∈ d.arguments.getLast?, ∀ value ∈ e.arguments.head?, NotCopied option value) ↔
      ¬ LetsCopy d e := by
  rw [LetsCopy, ← exists_getLast?_iff hd hsurvives, ← head?_eq_copy_iff he hsurvives']
  constructor
  · rintro hnot ⟨hcopy, option, hoption, hchooses⟩
    exact hnot option hoption "copy" hcopy ⟨hchooses, rfl⟩
  · rintro hnot option hoption value hvalue ⟨hchooses, rfl⟩
    exact hnot ⟨hvalue, option, hoption, hchooses⟩

/-- Where codecs that copy are dropped, one is left exactly if the reading lets it through. -/
theorem noCopy_surviving_iff {ds : List Directive} (hread : ∀ d ∈ ds, d.IsRead false) :
    NoCopy ((surviving true ds).flatMap arguments) ↔
      (surviving true ds).IsChain fun d e => ¬ LetsCopy d e := by
  have hmem {d : Directive} (hd : d ∈ surviving true ds) :
      d.IsRead false ∧ d.survives true = true :=
    ⟨hread d (List.mem_filter.1 hd).1, (List.mem_filter.1 hd).2⟩
  have hnil : [] ∉ (surviving true ds).map arguments := by
    intro hmem
    obtain ⟨d, _, hd⟩ := List.mem_map.1 hmem
    exact d.arguments_ne_nil hd
  rw [List.flatMap_def, NoCopy, List.isChain_flatten hnil, List.isChain_map]
  have hparts : ∀ l ∈ (surviving true ds).map arguments, l.IsChain NotCopied := by
    intro l hl
    obtain ⟨d, hd, rfl⟩ := List.mem_map.1 hl
    exact noCopy_arguments (hmem hd).1 (hmem hd).2
  rw [and_iff_right hparts]
  refine List.IsChain.iff_of_mem_imp fun d e hd he => ?_
  exact notCopied_iff (hmem hd).1 (hmem he).1 (hmem hd).2 (hmem he).2

/-- A codec that copies stands where an option is expected: an option that is looked for
with its value, or one that is not, which is read as two arguments. -/
inductive Copies (option : String) (ds : List Directive) : Prop where
  | codec (h : codec option "copy" ∈ ds)
  | bare (hbare : option = "-c" ∨ option = "-codec") (h : [other option, other "copy"] <:+: ds)

theorem Copies.infix_arguments {option : String} {ds : List Directive} (h : Copies option ds) :
    [option, "copy"] <:+: ds.flatMap arguments := by
  cases h with
  | codec h =>
    obtain ⟨front, rest, rfl⟩ := List.append_of_mem h
    exact ⟨front.flatMap arguments, rest.flatMap arguments, by simp [arguments]⟩
  | bare _ h =>
    obtain ⟨front, rest, rfl⟩ := h
    exact ⟨front.flatMap arguments, rest.flatMap arguments, by simp [arguments]⟩

theorem contains_copy : Text.contains "copy" "copy" = true := by decide

/-- All codecs that copy are left if none is dropped, or if none is of a spelling that is
looked for. -/
theorem copies_surviving_iff {ds : List Directive} (hread : ∀ d ∈ ds, d.IsRead false)
    (dropCopy : Bool) :
    (∀ option, Copies option ds → Copies option (surviving dropCopy ds)) ↔
      dropCopy = false ∨ ∀ option, codec option "copy" ∉ ds := by
  constructor
  · intro hleft
    refine or_iff_not_imp_left.2 fun hdrop option hcodec => ?_
    obtain rfl : dropCopy = true := by simpa using hdrop
    have hrole : OptionRole.of false option = .codec := hread _ hcodec option rfl
    cases hleft option (.codec hcodec) with
    | codec h => exact absurd (List.mem_filter.1 h).2 (by simp [survives, contains_copy])
    | bare hbare _ =>
      revert hrole
      rcases hbare with rfl | rfl <;> decide
  · rintro hkept option (hcodec | ⟨hbare, hpart⟩)
    · refine .codec (List.mem_filter.2 ⟨hcodec, ?_⟩)
      rw [hkept.resolve_right fun h => h option hcodec]
      rfl
    · exact .bare hbare (hpart.filter (survives dropCopy))

end Directive

namespace FanOut

open Directive (surviving)

variable {ids : Nat → String} {profiles : List Profile} {params : Parameters} {pads : StreamPads}
  {f : FanOut} {cs : List Contribution}

def IsSplit (f : FanOut) : Prop := ∃ kind, (f.wiringOf kind).split.isSome = true

theorem isSome_split_wiring (pads : StreamPads) (kind : StreamKind) (cs : List Contribution) :
    (wiring pads kind cs).split.isSome = true ↔
      (∃ pad, pads.pad? kind = some pad) ∧ cs.length ≠ 1 := by
  cases hpad : pads.pad? kind with
  | none => simp [wiring_of_none cs hpad]
  | some pad =>
    rw [wiring_of_some cs hpad]
    match cs with
    | [] => simp [Wiring.ofFilters, Wiring.several]
    | [c] => cases hfilter : c.filter kind <;> simp [Wiring.ofFilters, Wiring.single, hfilter]
    | _ :: _ :: _ => simp [Wiring.ofFilters, Wiring.several]

theorem isSplit_iff {roles : Roles} (hpad : ∃ kind pad, pads.pad? kind = some pad)
    (h : Assembled ids params pads roles cs f) : f.IsSplit ↔ (active cs).length ≠ 1 := by
  simp only [IsSplit, h.wiringOf_eq, isSome_split_wiring]
  constructor
  · rintro ⟨_, _, hlength⟩
    exact hlength
  · intro hlength
    obtain ⟨kind, hpad⟩ := hpad
    exact ⟨kind, hpad, hlength⟩

theorem mapOption_of_some {kind : StreamKind} {pad : Pad} (hpad : pads.pad? kind = some pad)
    {index : Nat} (hindex : index < cs.length) :
    mapOption (wiring pads kind cs) index = ["-map",
      if cs.map (·.filter kind) = [none] then pad.mapValue else (kind.outputPad index).text] := by
  rw [mapOption, wiring_of_some cs hpad, getElem?_maps_ofFilters kind pad (by simpa using hindex)]

theorem mapOption_of_none {kind : StreamKind} (hpad : pads.pad? kind = none) (index : Nat) :
    mapOption (wiring pads kind cs) index = [] := by
  rw [mapOption, wiring_of_none cs hpad]
  rfl

theorem head?_outputGroup (hpad : ∃ kind pad, pads.pad? kind = some pad) {index : Nat}
    (hindex : index < cs.length) (c : Contribution) :
    (outputGroup (wiring pads .video cs) (wiring pads .audio cs) index c).head? = some "-map" := by
  rw [outputGroup]
  cases hvideo : pads.pad? .video with
  | some pad =>
    rw [mapOption_of_some hvideo hindex]
    rfl
  | none =>
    obtain ⟨kind, pad, hpad⟩ := hpad
    cases kind with
    | video =>
      rw [hvideo] at hpad
      cases hpad
    | audio =>
      rw [mapOption_of_none hvideo, mapOption_of_some hpad hindex]
      rfl

theorem not_choosesCodec_of_mem_mapOption {kind : StreamKind} {index : Nat}
    (hindex : index < cs.length) (hseveral : cs.length ≠ 1) :
    ∀ a ∈ mapOption (wiring pads kind cs) index, ¬ ChoosesCodec a := by
  cases hpad : pads.pad? kind with
  | none => simp [mapOption_of_none hpad]
  | some pad =>
    have hfilters : cs.map (·.filter kind) ≠ [none] := by
      intro hfilters
      have hlength := congrArg List.length hfilters
      rw [List.length_map] at hlength
      exact hseveral hlength
    rw [mapOption_of_some hpad hindex, if_neg hfilters]
    refine List.forall_mem_cons.2 ⟨by decide, List.forall_mem_singleton.2 ?_⟩
    rintro (hlisted | hstart | hstart)
    · simp [StreamKind.outputPad, Pad.named, ← String.toList_inj] at hlisted
    · simp [StreamKind.outputPad, Pad.named, Text.startsWith_iff] at hstart
    · simp [StreamKind.outputPad, Pad.named, Text.startsWith_iff] at hstart

/-- Several outputs copy nothing exactly if none of them does. -/
theorem noCopy_outputGroups_iff (hpad : ∃ kind pad, pads.pad? kind = some pad)
    (hseveral : cs.length ≠ 1) :
    NoCopy (outputGroups (wiring pads .video cs) (wiring pads .audio cs) cs) ↔
      ∀ c ∈ cs, NoCopy c.options := by
  have hindex {x : Contribution × Nat} (hx : x ∈ cs.zipIdx) : x.2 < cs.length := by
    simpa using (List.mem_zipIdx hx).2.1
  have hgroup {x : Contribution × Nat} (hx : x ∈ cs.zipIdx) :
      NoCopy (outputGroup (wiring pads .video cs) (wiring pads .audio cs) x.2 x.1) ↔
        NoCopy x.1.options := by
    refine noCopy_append_iff fun a ha => ?_
    rcases List.mem_append.1 ha with ha | ha
    · exact not_choosesCodec_of_mem_mapOption (hindex hx) hseveral a ha
    · exact not_choosesCodec_of_mem_mapOption (hindex hx) hseveral a ha
  rw [outputGroups, List.flatMap_def, noCopy_flatten_iff, List.forall_mem_map]
  · constructor
    · intro h c hc
      obtain ⟨index, hlength, rfl⟩ := List.getElem_of_mem hc
      have hplace : (cs[index], index) ∈ cs.zipIdx := List.mem_zipIdx_iff_getElem?.2 (by simp)
      exact (hgroup hplace).1 (h _ hplace)
    · intro h x hx
      exact (hgroup hx).2 (h _ (List.mem_of_getElem? (List.mem_zipIdx_iff_getElem?.1 hx)))
  · refine List.forall_mem_map.2 fun x hx => head?_outputGroup hpad (hindex hx) x.1

/-- Which codecs that copy are left in a command without a group, where a stream is split
and where none is. -/
theorem copies_of_build (hdelivery : ∀ p ∈ profiles, p.adaptiveType? = none)
    (h : build ids profiles params pads = .ok f) :
    ∃ read, deliveryDirectives ids params profiles = .ok read ∧
      (f.IsSplit → (NoCopy f.arguments ↔ ∀ ds ∈ taking (1 < profiles.length) read,
        (surviving true ds).IsChain fun d e => ¬ Directive.LetsCopy d e)) ∧
      (¬ f.IsSplit → ∃ ds, taking (1 < profiles.length) read = [ds] ∧
        f.arguments = mapOption f.video 0 ++ mapOption f.audio 0 ++
          (surviving (1 < profiles.length) ds).flatMap Directive.arguments ∧
        (∀ option, Directive.Copies option (surviving (1 < profiles.length) ds) →
          [option, "copy"] <:+: f.arguments) ∧
        ((∀ option, Directive.Copies option ds →
            Directive.Copies option (surviving (1 < profiles.length) ds)) ↔
          profiles.length = 1 ∨ ∀ option, Directive.codec option "copy" ∉ ds)) := by
  obtain ⟨read, hread, hassembled, harguments⟩ := exists_of_build_own hdelivery h
  have hpad := exists_pad_of_build h
  have hactive := active_ownContributions (1 < profiles.length) read
  have hsplit : f.IsSplit ↔ (taking (1 < profiles.length) read).length ≠ 1 := by
    rw [isSplit_iff hpad hassembled, hactive, List.length_map]
  have hpositive : (taking (1 < profiles.length) read).length ≠ 0 := by
    have hne := hassembled.active_ne_nil
    rwa [hactive, ne_eq, List.map_eq_nil_iff, ← List.length_eq_zero_iff] at hne
  have hcount : (taking (1 < profiles.length) read).length ≤ profiles.length :=
    length_ownReadings hread ▸ List.length_filter_le _ _
  have hisRead {ds : List Directive} (hds : ds ∈ taking (1 < profiles.length) read) :
      ∀ d ∈ ds, d.IsRead false := isRead_of_mem_ownReadings hread ds (List.mem_of_mem_filter hds)
  refine ⟨read, (deliveryDirectives_of_delivery hdelivery).trans hread, ?_, ?_⟩
  · intro hf
    have hseveral := hsplit.1 hf
    have hdrop : decide (1 < profiles.length) = true := decide_eq_true (by omega)
    have hvideo := hassembled.video_eq
    have haudio := hassembled.audio_eq
    rw [hactive] at hvideo haudio
    rw [harguments, hvideo, haudio, noCopy_outputGroups_iff hpad (by simpa using hseveral),
      List.forall_mem_map]
    refine forall₂_congr fun ds hds => ?_
    rw [← Directive.noCopy_surviving_iff (hisRead hds), ← Directive.flatMap_options_own, hdrop]
    rfl
  · intro hf
    obtain ⟨ds, hds⟩ := List.length_eq_one_iff.1 (not_not.1 (mt hsplit.2 hf))
    have hone : (1 < profiles.length) = False ↔ profiles.length = 1 := by
      rw [eq_iff_iff, iff_false]
      omega
    have hall : f.arguments = mapOption f.video 0 ++ mapOption f.audio 0 ++
        (surviving (1 < profiles.length) ds).flatMap Directive.arguments := by
      rw [harguments, hds, ← Directive.flatMap_options_own]
      simp [outputGroups, outputGroup, ownContribution, Contribution.ofDirectives]
    refine ⟨ds, hds, hall, ?_, ?_⟩
    · intro option hcopies
      rw [hall]
      exact hcopies.infix_arguments.trans (List.suffix_append _ _).isInfix
    · rw [Directive.copies_surviving_iff (hisRead (hds ▸ List.mem_singleton_self ds)),
        decide_eq_false_iff_not]
      exact or_congr_left (by omega)

/-- Two outputs from a split stream: of the codecs that copy, both spellings that are looked
for are dropped. -/
theorem copies_of_split_spellings :
    let profile (identifier command : String) : Profile :=
      { identifier, name := "p", input := .audioVisual, output := .audioVisual
        extensions := Std.TreeMap.ofList [(Template.commandKey, command)] }
    let profiles := [profile "low" "-vcodec copy -crf 30 -codec:a copy low.mp4",
      profile "idle" "-c:v copy", profile "high" "-vf fps=50 -c:a:0 copy high.mp4"]
    let pads : StreamPads := ⟨some (.stream 0 'v'), some (.stream 0 'a')⟩
    ∃ f read, (∀ p ∈ profiles, p.adaptiveType? = none) ∧
      build (fun _ => "id") profiles ∅ pads = .ok f ∧
      deliveryDirectives (fun _ => "id") ∅ profiles = .ok read ∧ f.IsSplit ∧
      f.arguments = ["-map", "[ov0]", "-map", "[oa0]", "-crf", "30", "low.mp4",
        "-map", "[ov1]", "-map", "[oa1]", "high.mp4"] ∧
      ∀ ds ∈ taking true read, (surviving true ds).IsChain fun d e => ¬ Directive.LetsCopy d e := by
  intro profile profiles pads
  have hdelivery : ∀ p ∈ profiles, p.adaptiveType? = none := by decide +kernel
  have hbuild : (build (fun _ => "id") profiles ∅ pads).toOption.map
      (fun f => (f.arguments, f.video.split.isSome)) =
        some (["-map", "[ov0]", "-map", "[oa0]", "-crf", "30", "low.mp4",
          "-map", "[ov1]", "-map", "[oa1]", "high.mp4"], true) := by decide +kernel
  obtain ⟨f, h, hf⟩ := exists_of_map_toOption hbuild
  obtain ⟨harguments, hsplit⟩ := Prod.mk.inj hf
  have hf : f.IsSplit := ⟨.video, hsplit⟩
  obtain ⟨read, hread, hcopies, _⟩ := copies_of_build hdelivery h
  refine ⟨f, read, hdelivery, h, hread, hf, harguments, (hcopies hf).1 ?_⟩
  rw [harguments]
  decide

/-- Behind a split `-c copy` is left, and beside a profile that only names an input, without
a split, `-c:v copy` is dropped. -/
theorem copies_of_bare_codec_and_idle_profile :
    let profile (identifier command : String) : Profile :=
      { identifier, name := "p", input := .audioVisual, output := .audioVisual
        extensions := Std.TreeMap.ofList [(Template.commandKey, command)] }
    let profiles := [profile "low" "-c copy low.mkv", profile "high" "-c:v libx264 high.mp4"]
    let idle := [profile "copy" "-c:v copy a.mp4", profile "idle" "-i a.mp4"]
    let pads : StreamPads := ⟨some (.stream 0 'v'), none⟩
    (∀ p ∈ profiles ++ idle, p.adaptiveType? = none) ∧
      (∃ f, build (fun _ => "id") profiles ∅ pads = .ok f ∧ f.IsSplit ∧ ¬ NoCopy f.arguments) ∧
      ∃ f ds, build (fun _ => "id") idle ∅ pads = .ok f ∧ ¬ f.IsSplit ∧
        (deliveryDirectives (fun _ => "id") ∅ idle).map (taking true) = .ok [ds] ∧
        Directive.Copies "-c:v" ds ∧ f.arguments = ["-map", "0:v", "a.mp4"] := by
  intro profile profiles idle pads
  refine ⟨by decide +kernel, ?_, ?_⟩
  · have hbuild : (build (fun _ => "id") profiles ∅ pads).toOption.map
        (fun f => (f.arguments, f.video.split.isSome)) =
          some (["-map", "[ov0]", "-c", "copy", "low.mkv",
            "-map", "[ov1]", "-c:v", "libx264", "high.mp4"], true) := by decide +kernel
    obtain ⟨f, h, hf⟩ := exists_of_map_toOption hbuild
    obtain ⟨harguments, hsplit⟩ := Prod.mk.inj hf
    refine ⟨f, h, ⟨.video, hsplit⟩, ?_⟩
    rw [harguments]
    decide
  · have hbuild : (build (fun _ => "id") idle ∅ pads).toOption.map
        (fun f => (f.arguments, f.video.split, f.audio.split)) =
          some (["-map", "0:v", "a.mp4"], none, none) := by decide +kernel
    obtain ⟨f, h, hf⟩ := exists_of_map_toOption hbuild
    obtain ⟨harguments, hsplit⟩ := Prod.mk.inj hf
    obtain ⟨hvideo, haudio⟩ := Prod.mk.inj hsplit
    refine ⟨f, [.codec "-c:v" "copy", .other "a.mp4"], h, ?_, by decide +kernel,
      .codec List.mem_cons_self, harguments⟩
    rintro ⟨kind, hsplit⟩
    cases kind <;> simp [wiringOf, hvideo, haudio] at hsplit

end FanOut

end Montage
