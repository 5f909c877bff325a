import Mathlib.Data.List.Forall2
import Montage.Proofs.CommandText
import Montage.Proofs.Output.StreamMap
import Montage.Proofs.Text.Search

/-!
# Graphs of their own in a shared command

A graph of its own cannot be part of a shared graph, so no directive may begin with an
option for one. That is all that is looked at: the value of a codec, of a limit or of a
bitrate, the command of a group, and the pad that a single output takes as it is, are
passed on whatever they say. `Unchecked` lists these ways, and an option for a graph of its
own gets into a shared command exactly by one of them (`mem_arguments_iff_unchecked`).
-/

namespace Montage

def IsNestedGraph (argument : String) : Prop :=
  Text.startsWith "-filter_complex" argument = true ∨ Text.startsWith "-lavfi" argument = true

instance (argument : String) : Decidable (IsNestedGraph argument) :=
  inferInstanceAs (Decidable (_ ∨ _))

theorem isNestedGraph_iff {argument : String} : IsNestedGraph argument ↔
    "-filter_complex".toList <+: argument.toList ∨ "-lavfi".toList <+: argument.toList := by
  rw [IsNestedGraph, Text.startsWith_iff, Text.startsWith_iff]

theorem OptionRole.of_eq_nestedGraph_iff {variant : Bool} {option : String} :
    OptionRole.of variant option = .nestedGraph ↔ IsNestedGraph option := by
  have hor : IsNestedGraph option ↔ (Text.startsWith "-filter_complex" option ||
      Text.startsWith "-lavfi" option) = true := by
    rw [Bool.or_eq_true]
    rfl
  simp only [OptionRole.of]
  rw [hor]
  by_cases h : (Text.startsWith "-filter_complex" option ||
      Text.startsWith "-lavfi" option) = true
  · rw [if_pos h]
    exact iff_of_true rfl h
  · rw [if_neg h]
    refine iff_of_false ?_ h
    split_ifs <;> simp

theorem not_isNestedGraph_of_not_mem {argument : String} (h : '-' ∉ argument.toList) :
    ¬ IsNestedGraph argument := by
  rw [isNestedGraph_iff]
  rintro (hstart | hstart) <;> exact h (hstart.subset (by decide))

/-- A stream specifier does not make an option one for a graph. -/
theorem isNestedGraph_append_colon_iff {option specifier : String} :
    IsNestedGraph (option ++ ":" ++ specifier) ↔ IsNestedGraph option := by
  have htext : (option ++ ":" ++ specifier).toList = option.toList ++ ':' :: specifier.toList := by
    simp
  rw [isNestedGraph_iff, isNestedGraph_iff, htext, Text.prefix_append_cons_iff (by decide),
    Text.prefix_append_cons_iff (by decide)]

theorem Numbered.isNestedGraph_iff {index : Nat} {option numbered : String}
    (h : Numbered index option numbered) : IsNestedGraph numbered ↔ IsNestedGraph option := by
  cases h with
  | unchanged => rfl
  | ofKind => exact isNestedGraph_append_colon_iff
  | ofVideo =>
    have htext : option ++ ":v:" ++ toString index = option ++ ":" ++ ("v:" ++ toString index) := by
      simp [← String.toList_inj]
    rw [htext, isNestedGraph_append_colon_iff]

theorem Part.isNestedGraph_keep_iff (part : Part) {argument : String} :
    IsNestedGraph (part.keep argument) ↔ IsNestedGraph argument := by
  cases part with
  | own => rfl
  | variant index => exact (numbered_keep index argument).isNestedGraph_iff

theorem Part.not_isNestedGraph_codecOption (part : Part) {option : String}
    (h : ¬ IsNestedGraph option) : ¬ IsNestedGraph (part.codecOption option) := by
  unfold codecOption
  split
  · exact h
  · split_ifs
    · decide
    · decide
    · exact h

namespace Directive

def IsChecked (d : Directive) : Prop := ∀ option ∈ d.arguments.head?, ¬ IsNestedGraph option

/-- The values that a shared command keeps of a directive. -/
def values (dropCopy : Bool) : Directive → List String
  | codec _ value => if dropCopy && Text.contains "copy" value then [] else [value]
  | maxRate _ value => [value]
  | filter .. | input _ | bitrate .. | other _ => []

theorem arguments_of_valued? {role : OptionRole} {option value : String} {d : Directive}
    (h : valued? role option value = some d) : d.arguments = [option, value] := by
  cases role <;> cases h <;> rfl

theorem isChecked_input (file : Option String) : (input file).IsChecked := by
  intro option hoption
  cases hoption
  decide

theorem isChecked_of_parse {profile : String} {variant : Bool} {arguments : List String}
    {directives : List Directive} (h : parse profile variant arguments = .ok directives) :
    ∀ d ∈ directives, d.IsChecked := by
  have hchecked {option : String} {d : Directive}
      (hrole : OptionRole.of variant option ≠ .nestedGraph)
      (hhead : d.arguments.head? = some option) : d.IsChecked := by
    intro o ho
    rw [hhead] at ho
    obtain rfl := Option.some.inj ho
    exact mt OptionRole.of_eq_nestedGraph_iff.2 hrole
  fun_induction parse profile variant arguments generalizing directives with
  | case1 =>
    cases h
    simp
  | case2 => cases h
  | case3 option rest hrole ih =>
    obtain ⟨ds, hds, rfl⟩ := map_eq_ok_iff.1 h
    exact List.forall_mem_cons.2 ⟨hchecked (by simp [hrole]) rfl, ih hds⟩
  | case4 option hrole =>
    cases h
    exact List.forall_mem_singleton.2 (isChecked_input none)
  | case5 option hrole file rest ih =>
    obtain ⟨ds, hds, rfl⟩ := map_eq_ok_iff.1 h
    exact List.forall_mem_cons.2 ⟨isChecked_input file, ih hds⟩
  | case6 => cases h
  | case7 option value rest hrole _ _ ih =>
    obtain ⟨ds, hds, rfl⟩ := map_eq_ok_iff.1 h
    refine List.forall_mem_append.2 ⟨fun d hd => hchecked hrole ?_, ih hds⟩
    rw [arguments_of_valued? (Option.mem_toList.1 hd)]
    rfl

/-- Of a checked directive only a value can be an option for a graph. -/
theorem IsChecked.mem_options_iff {d : Directive} (h : d.IsChecked) (part : Part)
    (dropCopy : Bool) {argument : String} (hnested : IsNestedGraph argument) :
    argument ∈ d.options part dropCopy ↔ argument ∈ d.values dropCopy := by
  have hne {option : String} (hoption : ¬ IsNestedGraph option) : argument ≠ part.keep option := by
    rintro rfl
    exact hoption (part.isNestedGraph_keep_iff.1 hnested)
  cases d with
  | filter kind option value => rfl
  | input file => rfl
  | bitrate kind option value => rfl
  | codec option value =>
    have hoption : ¬ IsNestedGraph option := h option rfl
    simp only [options, values]
    split_ifs
    · rfl
    · simp [hne (part.not_isNestedGraph_codecOption hoption)]
  | maxRate option value =>
    have hoption : ¬ IsNestedGraph option := h option rfl
    simp [options, values, hne hoption]
  | other option =>
    have hoption : ¬ IsNestedGraph option := h option rfl
    simp [options, values, hne hoption]

theorem length_options (part : Part) (dropCopy : Bool) (d : Directive) :
    (d.options part dropCopy).length = (d.kept dropCopy).length := by
  cases part with
  | variant index => exact (d.numbered_options dropCopy index).length_eq.symm
  | own => 
    cases d with
    | codec option value =>
      simp only [options, kept]
      split_ifs <;> rfl
    | _ => rfl

end Directive

namespace Contribution

/-- The contribution comes from the directives, whatever the part of its profile is. -/
structure ComesFrom (dropCopy : Bool) (c : Contribution) (ds : List Directive) : Prop where
  options_eq : ∃ part, c.options = ds.flatMap (Directive.options part dropCopy)
  filter_eq : ∀ kind, c.filter kind = Directive.last? (Directive.filterOf? kind) ds
  bitrate_eq : ∀ kind, c.bitrate kind = Directive.bitrate? kind ds

variable {dropCopy : Bool} {c : Contribution} {ds : List Directive}

theorem ComesFrom.isActive_eq (h : c.ComesFrom dropCopy ds) :
    c.isActive = !(ds.flatMap (Directive.kept dropCopy)).isEmpty := by
  obtain ⟨part, hoptions⟩ := h.options_eq
  have hlength : (ds.flatMap (Directive.options part dropCopy)).length =
      (ds.flatMap (Directive.kept dropCopy)).length := by
    simp only [List.length_flatMap, Directive.length_options]
  rw [isActive, hoptions, Bool.eq_iff_iff]
  simp only [Bool.not_eq_true', List.isEmpty_eq_false_iff, ← List.length_pos_iff, hlength]

theorem ComesFrom.mem_options_iff (h : c.ComesFrom dropCopy ds)
    (hchecked : ∀ d ∈ ds, d.IsChecked) {argument : String} (hnested : IsNestedGraph argument) :
    argument ∈ c.options ↔ ∃ d ∈ ds, argument ∈ d.values dropCopy := by
  obtain ⟨part, hoptions⟩ := h.options_eq
  rw [hoptions, List.mem_flatMap]
  exact exists_congr fun d => and_congr_right fun hd =>
    (hchecked d hd).mem_options_iff part dropCopy hnested

end Contribution

namespace FanOut

open Contribution (ComesFrom)

variable {ids : Nat → String} {profiles : List Profile} {params : Parameters} {pads : StreamPads}
  {f : FanOut} {dropCopy : Bool} {cs : List Contribution} {read : List (List Directive)}

def ownDirectives (params : Parameters) (p : Profile) (id : String) :
    Except Error (List Directive) := do
  let words ← Words.tokenize (← p.command)
  Directive.parse p.identifier false (Template.arguments (outputParameters params p id) words)

def deliveryDirectives (ids : Nat → String) (params : Parameters) (profiles : List Profile) :
    Except Error (List (List Directive)) :=
  if (group? profiles).isSome then (delivery profiles).mapM (variantDirectives params)
  else (delivery profiles).zipIdx.mapM fun x => ownDirectives params x.1 (ids x.2)

/-- The profiles that take part are those that keep an argument. -/
def taking (dropCopy : Bool) (read : List (List Directive)) : List (List Directive) :=
  read.filter fun ds => !(ds.flatMap (Directive.kept dropCopy)).isEmpty

theorem isChecked_ownDirectives {p : Profile} {id : String} {ds : List Directive}
    (h : ownDirectives params p id = .ok ds) : ∀ d ∈ ds, d.IsChecked := by
  obtain ⟨_, _, h⟩ := bind_eq_ok_iff.1 h
  obtain ⟨_, _, h⟩ := bind_eq_ok_iff.1 h
  exact Directive.isChecked_of_parse h

theorem isChecked_variantDirectives {p : Profile} {ds : List Directive}
    (h : variantDirectives params p = .ok ds) : ∀ d ∈ ds, d.IsChecked := by
  obtain ⟨_, _, h⟩ := bind_eq_ok_iff.1 h
  obtain ⟨_, _, h⟩ := bind_eq_ok_iff.1 h
  exact Directive.isChecked_of_parse h

theorem comesFrom_ownOutput {p : Profile} {id : String} {c : Contribution}
    (h : ownOutput params dropCopy p id = .ok c) :
    ∃ ds, ownDirectives params p id = .ok ds ∧ c.ComesFrom dropCopy ds := by
  obtain ⟨command, hcommand, h⟩ := bind_eq_ok_iff.1 h
  obtain ⟨words, hwords, h⟩ := bind_eq_ok_iff.1 h
  obtain ⟨c', hc', h⟩ := bind_eq_ok_iff.1 h
  obtain ⟨ds, hds, rfl⟩ := map_eq_ok_iff.1 hc'
  cases h
  refine ⟨ds, ?_, ⟨⟨.own, rfl⟩, fun _ => rfl, fun _ => rfl⟩⟩
  exact bind_eq_ok_iff.2 ⟨command, hcommand, bind_eq_ok_iff.2 ⟨words, hwords, hds⟩⟩

theorem comesFrom_variant {p : Profile} {index : Nat} {c : Contribution}
    (h : variant params dropCopy p index = .ok c) :
    ∃ ds, variantDirectives params p = .ok ds ∧ c.ComesFrom dropCopy ds := by
  rw [variant_eq] at h
  obtain ⟨ds, hds, rfl⟩ := map_eq_ok_iff.1 h
  exact ⟨ds, hds, ⟨⟨_, rfl⟩, fun _ => rfl, fun _ => rfl⟩⟩

theorem comesFrom_ownOutputs {position : Nat}
    (h : ownOutputs params dropCopy ids position profiles = .ok cs) :
    ∃ read, (profiles.zipIdx position).mapM (fun x => ownDirectives params x.1 (ids x.2)) = .ok read ∧
      List.Forall₂ (ComesFrom dropCopy) cs read ∧ ∀ ds ∈ read, ∀ d ∈ ds, d.IsChecked := by
  induction profiles generalizing position cs with
  | nil =>
    cases h
    exact ⟨[], rfl, .nil, by simp⟩
  | cons p profiles ih =>
    obtain ⟨c, hc, h⟩ := bind_eq_ok_iff.1 h
    obtain ⟨rest, hrest, h⟩ := bind_eq_ok_iff.1 h
    cases h
    obtain ⟨ds, hds, hfrom⟩ := comesFrom_ownOutput hc
    obtain ⟨read, hread, hfroms, hchecked⟩ := ih hrest
    exact ⟨ds :: read, mapM_cons_eq_ok hds hread, .cons hfrom hfroms,
      List.forall_mem_cons.2 ⟨isChecked_ownDirectives hds, hchecked⟩⟩

theorem comesFrom_variants {index : Nat} (h : variants params dropCopy index profiles = .ok cs) :
    ∃ read, profiles.mapM (variantDirectives params) = .ok read ∧
      List.Forall₂ (ComesFrom dropCopy) cs read ∧ ∀ ds ∈ read, ∀ d ∈ ds, d.IsChecked := by
  induction profiles generalizing index cs with
  | nil =>
    cases h
    exact ⟨[], rfl, .nil, by simp⟩
  | cons p profiles ih =>
    obtain ⟨c, hc, h⟩ := bind_eq_ok_iff.1 h
    obtain ⟨rest, hrest, h⟩ := bind_eq_ok_iff.1 h
    cases h
    obtain ⟨ds, hds, hfrom⟩ := comesFrom_variant hc
    obtain ⟨read, hread, hfroms, hchecked⟩ := ih hrest
    exact ⟨ds :: read, mapM_cons_eq_ok hds hread, .cons hfrom hfroms,
      List.forall_mem_cons.2 ⟨isChecked_variantDirectives hds, hchecked⟩⟩

theorem comesFrom_contributions {roles : Roles} (hroles : rolesOf profiles = .ok roles)
    (h : contributions ids params roles = .ok cs) :
    ∃ read, deliveryDirectives ids params profiles = .ok read ∧
      List.Forall₂ (ComesFrom (1 < (delivery profiles).length)) cs read ∧
        ∀ ds ∈ read, ∀ d ∈ ds, d.IsChecked := by
  obtain rfl := rolesOf_eq_ok hroles
  unfold deliveryDirectives
  cases hgroup : (group? profiles).isSome with
  | true =>
    simp only [contributions, hgroup, if_true] at h
    exact comesFrom_variants h
  | false =>
    simp only [contributions, hgroup, Bool.false_eq_true, if_false] at h
    exact comesFrom_ownOutputs h

theorem comesFrom_active (h : List.Forall₂ (ComesFrom dropCopy) cs read) :
    List.Forall₂ (ComesFrom dropCopy) (active cs) (taking dropCopy read) :=
  List.rel_filter (fun c ds hfrom => by simp only [hfrom.isActive_eq]) h

theorem map_eq_of_comesFrom {α : Type} {g : Contribution → α} {g' : List Directive → α}
    (hg : ∀ c ds, ComesFrom dropCopy c ds → g c = g' ds)
    (h : List.Forall₂ (ComesFrom dropCopy) cs read) : cs.map g = read.map g' := by
  induction h with
  | nil => rfl
  | cons hfrom _ ih => rw [List.map_cons, List.map_cons, hg _ _ hfrom, ih]

theorem not_isNestedGraph_outputPad (kind : StreamKind) (index : Nat) :
    ¬ IsNestedGraph (kind.outputPad index).text := by
  have hdigits : '-' ∉ (toString index).toList := not_mem_toString (by decide)
  apply not_isNestedGraph_of_not_mem
  cases kind <;> simpa [StreamKind.outputPad, Pad.named, StreamKind.letter] using hdigits

theorem not_isNestedGraph_bitrateOption (kind : StreamKind) (index : Nat) :
    ¬ IsNestedGraph ("-b:" ++ kind.letter.toString ++ ":" ++ toString index) := by
  rw [isNestedGraph_append_colon_iff]
  cases kind <;> decide

theorem not_isNestedGraph_streamMap (pads : StreamPads) (count : Nat) :
    ¬ IsNestedGraph (" ".intercalate (streamMap pads count)) := by
  have hentry (index : Nat) (kind : StreamKind) :
      ∀ c ∈ (kind.letter.toString ++ ":" ++ toString index).toList, c ≠ '-' := by
    have hdigits : '-' ∉ (toString index).toList := not_mem_toString (by decide)
    rintro c hc rfl
    cases kind <;> simp [StreamKind.letter] at hc hdigits <;> exact hdigits hc
  have htext : ∀ c ∈ (" ".intercalate (streamMap pads count)).toList, c ≠ '-' := by
    refine Text.forall_mem_intercalate (by simp) (List.forall_mem_map.2 fun index _ => ?_)
    exact Text.forall_mem_intercalate (by simp) (List.forall_mem_map.2 fun kind _ => hentry index kind)
  exact not_isNestedGraph_of_not_mem fun hmem => htext '-' hmem rfl

theorem not_isNestedGraph_of_mem_distributeBitrates {count : Nat} {limits : BitrateLimits}
    {bitrate : String} (h : bitrate ∈ distributeBitrates count limits) :
    ¬ IsNestedGraph bitrate := by
  obtain ⟨index, _, rfl⟩ := List.mem_map.1 h
  have hdigits {n : Nat} : '-' ∉ (toString n).toList := not_mem_toString (by decide)
  apply not_isNestedGraph_of_not_mem
  rw [String.toList_append, List.mem_append, not_or]
  exact ⟨hdigits, by decide⟩

section Arguments

variable {argument : String} (hnested : IsNestedGraph argument)

include hnested

theorem ne_of_isNestedGraph {other : String} (h : ¬ IsNestedGraph other) : argument ≠ other := by
  rintro rfl
  exact h hnested

theorem mem_mapOption_iff {kind : StreamKind} {index : Nat} (hindex : index < cs.length) :
    argument ∈ mapOption (wiring pads kind cs) index ↔
      ∃ pad, pads.pad? kind = some pad ∧ cs.map (·.filter kind) = [none] ∧
        argument = pad.mapValue := by
  have hmap : argument ≠ "-map" := ne_of_isNestedGraph hnested (by decide)
  have houtput : argument ≠ (kind.outputPad index).text :=
    ne_of_isNestedGraph hnested (not_isNestedGraph_outputPad kind index)
  unfold mapOption
  cases hpad : pads.pad? kind with
  | none => simp [wiring_of_none cs hpad]
  | some pad =>
    rw [wiring_of_some cs hpad, getElem?_maps_ofFilters kind pad (by simpa using hindex)]
    by_cases hfilters : cs.map (·.filter kind) = [none]
    · simp [hfilters, hmap]
    · simp [hfilters, hmap, houtput]

theorem mem_outputGroups_iff :
    argument ∈ outputGroups (wiring pads .video cs) (wiring pads .audio cs) cs ↔
      (∃ kind pad, pads.pad? kind = some pad ∧ cs.map (·.filter kind) = [none] ∧
        argument = pad.mapValue) ∨ ∃ c ∈ cs, argument ∈ c.options := by
  have hgroup {c : Contribution} {index : Nat} (hindex : index < cs.length) :
      argument ∈ outputGroup (wiring pads .video cs) (wiring pads .audio cs) index c ↔
        (∃ kind pad, pads.pad? kind = some pad ∧ cs.map (·.filter kind) = [none] ∧
          argument = pad.mapValue) ∨ argument ∈ c.options := by
    rw [outputGroup, List.mem_append, List.mem_append, mem_mapOption_iff hnested hindex,
      mem_mapOption_iff hnested hindex]
    refine or_congr_left ⟨?_, ?_⟩
    · rintro (hvideo | haudio)
      · exact ⟨.video, hvideo⟩
      · exact ⟨.audio, haudio⟩
    · rintro ⟨kind, hpad⟩
      cases kind with
      | video => exact Or.inl hpad
      | audio => exact Or.inr hpad
  rw [outputGroups, List.mem_flatMap]
  constructor
  · rintro ⟨⟨c, index⟩, hplace, hmem⟩
    obtain ⟨_, hindex, hc⟩ := List.mem_zipIdx hplace
    rcases (hgroup (by simpa using hindex)).1 hmem with hpad | hoption
    · exact Or.inl hpad
    · exact Or.inr ⟨c, by simp [hc], hoption⟩
  · rintro (⟨kind, pad, hpad, hsingle, rfl⟩ | ⟨c, hc, hoption⟩)
    · obtain ⟨c, rfl, _⟩ := List.map_eq_singleton_iff.1 hsingle
      exact ⟨(c, 0), List.mem_cons_self, (hgroup Nat.zero_lt_one).2
        (Or.inl ⟨kind, pad, hpad, hsingle, rfl⟩)⟩
    · obtain ⟨index, hindex, rfl⟩ := List.getElem_of_mem hc
      exact ⟨(cs[index], index), List.mem_zipIdx_iff_getElem?.2 (by simp),
        (hgroup hindex).2 (Or.inr hoption)⟩

theorem mem_variantBitrates_iff {kind : StreamKind} {group : Profile}
    {given : List (Option String)} : argument ∈ variantBitrates kind group given ↔
      ∃ bitrates : List String, given = bitrates.map some ∧ argument ∈ bitrates := by
  rcases sharedBitrates_variantBitrates kind group given with hgiven | ⟨hnone, hgenerated⟩
  · constructor
    · exact fun hmem => ⟨_, hgiven, hmem⟩
    · rintro ⟨bitrates, hbitrates, hmem⟩
      rw [hgiven, (List.map_injective_iff.2 (Option.some_injective String)).eq_iff] at hbitrates
      rwa [hbitrates]
  · constructor
    · intro hmem
      rw [hgenerated] at hmem
      exact absurd hnested (not_isNestedGraph_of_mem_distributeBitrates hmem)
    · rintro ⟨bitrates, rfl, _⟩
      simp at hnone

theorem mem_bitrateOptions_iff {kinds : List StreamKind} {bitrates : StreamKind → List String}
    {count : Nat} (hlength : ∀ kind, (bitrates kind).length = count) :
    argument ∈ (List.range count).flatMap (bitrateOptions kinds bitrates) ↔
      ∃ kind ∈ kinds, argument ∈ bitrates kind := by
  rw [List.mem_flatMap]
  constructor
  · rintro ⟨index, hindex, hmem⟩
    obtain ⟨kind, hkind, hmem⟩ := List.mem_flatMap.1 hmem
    have hoption := ne_of_isNestedGraph hnested (not_isNestedGraph_bitrateOption kind index)
    have hvalue := (List.mem_cons.1 hmem).resolve_left hoption
    have hbound : index < (bitrates kind).length := by
      rw [hlength]
      exact List.mem_range.1 hindex
    rw [List.getElem?_eq_getElem hbound, Option.getD_some, List.mem_singleton] at hvalue
    exact ⟨kind, hkind, hvalue ▸ List.getElem_mem hbound⟩
  · rintro ⟨kind, hkind, hmem⟩
    obtain ⟨index, hbound, rfl⟩ := List.getElem_of_mem hmem
    refine ⟨index, List.mem_range.2 (hlength kind ▸ hbound), List.mem_flatMap.2 ⟨kind, hkind, ?_⟩⟩
    simp [hbound]

theorem mem_groupArguments_iff {group : Profile} {trailing : List String}
    (h : groupArguments params pads group cs = .ok trailing) :
    argument ∈ trailing ↔
      (∃ kind ∈ kinds pads, ∃ bitrates : List String,
        cs.map (·.bitrate kind) = bitrates.map some ∧ argument ∈ bitrates) ∨
      ∃ own, IsOwn params group own ∧ argument ∈ own := by
  have hmap : argument ≠ "-var_stream_map" := ne_of_isNestedGraph hnested (by decide)
  have hstreams : argument ≠ " ".intercalate (streamMap pads cs.length) :=
    ne_of_isNestedGraph hnested (not_isNestedGraph_streamMap pads cs.length)
  obtain ⟨command, hcommand, h⟩ := bind_eq_ok_iff.1 h
  have hown {own : List String} : IsOwn params group own ↔
      own = Template.arguments (groupParameters params group) (Words.splitLoose command) := by
    constructor
    · rintro ⟨command', hcommand', rfl⟩
      cases hcommand.symm.trans hcommand'
      rfl
    · rintro rfl
      exact ⟨command, hcommand, rfl⟩
  have hlength (kind : StreamKind) :
      (variantBitrates kind group (cs.map (·.bitrate kind))).length = cs.length := by
    rw [(sharedBitrates_variantBitrates kind group _).length_eq, List.length_map]
  have hnone : argument ∉ ["-var_stream_map", " ".intercalate (streamMap pads cs.length)] := by
    simp [hmap, hstreams]
  rw [← pure_eq_ok_iff.1 h, List.mem_append, List.mem_append,
    mem_bitrateOptions_iff hnested hlength]
  simp only [mem_variantBitrates_iff hnested, hown, exists_eq_left]
  exact or_congr_left (or_iff_left hnone)

theorem mem_options_iff_of_comesFrom (h : List.Forall₂ (ComesFrom dropCopy) cs read)
    (hchecked : ∀ ds ∈ read, ∀ d ∈ ds, d.IsChecked) :
    (∃ c ∈ cs, argument ∈ c.options) ↔
      ∃ ds ∈ read, ∃ d ∈ ds, argument ∈ d.values dropCopy := by
  induction h with
  | nil => simp
  | cons hfrom _ ih =>
    obtain ⟨hfirst, hrest⟩ := List.forall_mem_cons.1 hchecked
    rw [List.exists_mem_cons_iff, List.exists_mem_cons_iff, hfrom.mem_options_iff hfirst hnested,
      ih hrest]

end Arguments

/-- The ways of an argument into a shared command on which nothing looks at it. `parts`
are the directives of the profiles that take part. -/
inductive Unchecked (params : Parameters) (pads : StreamPads) (profiles : List Profile)
    (parts : List (List Directive)) (argument : String) : Prop where
  /-- The value of a codec or of a limit. -/
  | value {ds : List Directive} (hds : ds ∈ parts) {d : Directive} (hd : d ∈ ds)
      (hvalue : argument ∈ d.values (1 < (delivery profiles).length))
  /-- A bitrate, if each variant gives one. -/
  | bitrate (hgroup : (group? profiles).isSome) {kind : StreamKind} (hkind : kind ∈ kinds pads)
      {bitrates : List String} (hgiven : parts.map (Directive.bitrate? kind) = bitrates.map some)
      (hbitrate : argument ∈ bitrates)
  /-- An argument of the group itself. -/
  | group {group : Profile} (hgroup : group? profiles = some group) {own : List String}
      (hown : IsOwn params group own) (hmem : argument ∈ own)
  /-- The pad of a stream that a single output takes as it is. -/
  | pad {kind : StreamKind} {pad : Pad} (hpad : pads.pad? kind = some pad)
      (hsingle : parts.map (Directive.last? (Directive.filterOf? kind)) = [none])
      (hvalue : argument = pad.mapValue)

/-- An option for a graph of its own gets into a shared command exactly by one of the ways
on which nothing looks at it. -/
theorem mem_arguments_iff_unchecked {argument : String} (hnested : IsNestedGraph argument)
    (h : build ids profiles params pads = .ok f) :
    ∃ read, deliveryDirectives ids params profiles = .ok read ∧
      (argument ∈ f.arguments ↔
        Unchecked params pads profiles (taking (1 < (delivery profiles).length) read) argument) := by
  obtain ⟨roles, cs, trailing, hroles, hassembled, htrailing, harguments⟩ :=
    exists_assembled_trailing h
  obtain ⟨read, hread, hfroms, hchecked⟩ :=
    comesFrom_contributions hroles hassembled.contributions_eq
  obtain rfl := rolesOf_eq_ok hroles
  have hactive := comesFrom_active hfroms
  have hoptions := mem_options_iff_of_comesFrom hnested hactive
    fun ds hds => hchecked ds (List.mem_of_mem_filter hds)
  have hfilters (kind : StreamKind) := map_eq_of_comesFrom
    (fun c ds (hfrom : ComesFrom _ c ds) => hfrom.filter_eq kind) hactive
  have hbitrates (kind : StreamKind) := map_eq_of_comesFrom
    (fun c ds (hfrom : ComesFrom _ c ds) => hfrom.bitrate_eq kind) hactive
  refine ⟨read, hread, ?_⟩
  rw [harguments, hassembled.video_eq, hassembled.audio_eq, List.mem_append,
    mem_outputGroups_iff hnested, hoptions]
  simp only [hfilters]
  constructor
  · rintro ((⟨kind, pad, hpad, hsingle, hvalue⟩ | ⟨ds, hds, d, hd, hvalue⟩) | hmem)
    · exact .pad hpad hsingle hvalue
    · exact .value hds hd hvalue
    · cases hgroup : group? profiles with
      | none =>
        rw [hgroup] at htrailing
        cases htrailing
        cases hmem
      | some group =>
        rw [hgroup] at htrailing
        rcases (mem_groupArguments_iff hnested htrailing).1 hmem with
          ⟨kind, hkind, bitrates, hgiven, hbitrate⟩ | ⟨own, hown, hmem⟩
        · rw [hbitrates kind] at hgiven
          exact .bitrate (by rw [hgroup]; rfl) hkind hgiven hbitrate
        · exact .group hgroup hown hmem
  · intro hunchecked
    cases hunchecked with
    | value hds hd hvalue => exact Or.inl (Or.inr ⟨_, hds, _, hd, hvalue⟩)
    | pad hpad hsingle hvalue => exact Or.inl (Or.inl ⟨_, _, hpad, hsingle, hvalue⟩)
    | bitrate hgroup hkind hgiven hbitrate =>
      obtain ⟨group, hgroup⟩ := Option.isSome_iff_exists.1 hgroup
      rw [hgroup] at htrailing
      rw [← hbitrates] at hgiven
      exact Or.inr ((mem_groupArguments_iff hnested htrailing).2
        (Or.inl ⟨_, hkind, _, hgiven, hbitrate⟩))
    | group hgroup hown hmem =>
      rw [hgroup] at htrailing
      exact Or.inr ((mem_groupArguments_iff hnested htrailing).2 (Or.inr ⟨_, hown, hmem⟩))

/-- A delivery profile with a graph in the place of its codec. -/
theorem mem_arguments_of_codec_value :
    let profile (identifier command : String) : Profile :=
      { identifier, name := "p", input := .audioVisual, output := .audioVisual
        extensions := Std.TreeMap.ofList [(Template.commandKey, command)] }
    let profiles := [profile "low" "-vf scale=320:-2 -c:v -lavfi -b:v 300k low.mp4",
      profile "high" "-c:v libx264 high.mp4"]
    let pads : StreamPads := ⟨some (.stream 0 'v'), none⟩
    ∃ f read, IsNestedGraph "-lavfi" ∧ build (fun _ => "id") profiles ∅ pads = .ok f ∧
      deliveryDirectives (fun _ => "id") ∅ profiles = .ok read ∧
      f.arguments = ["-map", "[ov0]", "-c:v", "-lavfi", "-b:v", "300k", "low.mp4",
        "-map", "[ov1]", "-c:v", "libx264", "high.mp4"] ∧
      Unchecked ∅ pads profiles (taking true read) "-lavfi" := by
  intro profile profiles pads
  have harguments : (build (fun _ => "id") profiles ∅ pads).toOption.map (·.arguments) =
      some ["-map", "[ov0]", "-c:v", "-lavfi", "-b:v", "300k", "low.mp4",
        "-map", "[ov1]", "-c:v", "libx264", "high.mp4"] := by decide +kernel
  obtain ⟨f, h, harguments⟩ := exists_of_map_toOption harguments
  have hnested : IsNestedGraph "-lavfi" := by decide
  obtain ⟨read, hread, hmem⟩ := mem_arguments_iff_unchecked hnested h
  exact ⟨f, read, hnested, h, hread, harguments, hmem.1 (by rw [harguments]; decide)⟩

/-- The command of a group is not looked at, and neither is the graph in it. -/
theorem mem_arguments_of_group_graph :
    let profile (identifier command : String) : Profile :=
      { identifier, name := "p", input := .audioVisual, output := .audioVisual
        extensions := Std.TreeMap.ofList [(Template.commandKey, command)] }
    let group : Profile :=
      { identifier := "hls", name := "p", input := .audioVisual, output := .audioVisual
        extensions := Std.TreeMap.ofList
          [(Template.commandKey, "-filter_complex [0:v]scale=640:-2[v] -f hls talk.m3u8"),
            (Profile.adaptiveKey, "HLS")] }
    let profiles := [profile "low" "-c:v libx264 -b:v 800k #\x7bout.name\x7d.mp4", group]
    let pads : StreamPads := ⟨some (.stream 0 'v'), none⟩
    ∃ f, build (fun _ => "id") profiles ∅ pads = .ok f ∧
      f.arguments = ["-map", "0:v", "-c:v:0", "libx264", "-b:v:0", "800k", "-var_stream_map",
        "v:0", "-filter_complex", "[0:v]scale=640:-2[v]", "-f", "hls", "talk.m3u8"] ∧
      ∃ argument ∈ f.arguments, IsNestedGraph argument := by
  intro profile group profiles pads
  have harguments : (build (fun _ => "id") profiles ∅ pads).toOption.map (·.arguments) =
      some ["-map", "0:v", "-c:v:0", "libx264", "-b:v:0", "800k", "-var_stream_map",
        "v:0", "-filter_complex", "[0:v]scale=640:-2[v]", "-f", "hls", "talk.m3u8"] := by
    decide +kernel
  obtain ⟨f, h, harguments⟩ := exists_of_map_toOption harguments
  exact ⟨f, h, harguments, "-filter_complex", by rw [harguments]; decide, by decide⟩

end FanOut

end Montage
