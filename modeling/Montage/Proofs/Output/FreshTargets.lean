import Montage.Proofs.CommandText
import Montage.Proofs.Engine.EditWiring
import Montage.Proofs.Identifier
import Montage.Proofs.Output.OwnOutput
import Montage.Proofs.Output.Roles

/-!
# Targets of repeated edits

An edit that is compiled again writes to other files, for the names of its outputs are made
with other identifiers. `targets_of_plan` shows this for outputs of their own: the text of a
word with the name of the output is made of segments, one of them the identifier, and such
texts differ as the identifiers do. The outputs of a group are named without an identifier,
so an edit with a group has the same command each time, and writes to the same files.
-/

namespace Montage

open Identifier (IsIdentifier Segment written)

namespace Template

variable {values : String → Option (List Segment)} {params : String → Parameters}

def Piece.segments (values : String → Option (List Segment)) : Piece → List Segment
  | literal c => [.text [c]]
  | hole key =>
    match values (String.ofList key) with
    | some segments => segments
    | none => if String.ofList key = spaceKey then [.text [' ']] else []

def segments (values : String → Option (List Segment)) (template : String) : List Segment :=
  (pieces template.toList).flatMap (Piece.segments values)

/-- The parameters for an identifier have the texts of these segments as their values. -/
def AreWritten (values : String → Option (List Segment)) (params : String → Parameters) : Prop :=
  ∀ id key, (params id)[key]? = (values key).map fun segments => String.ofList (written id segments)

theorem AreWritten.substitute (h : AreWritten values params) (id template : String) :
    Template.substitute (params id) template =
      String.ofList (written id (segments values template)) := by
  rw [Template.substitute, written, segments, List.flatMap_assoc]
  congr 2
  funext piece
  cases piece with
  | literal c => rfl
  | hole key =>
    simp only [Piece.resolve, Piece.segments, h id]
    cases values (String.ofList key) with
    | some segments => simp [written]
    | none =>
      simp only [Option.map_none]
      split <;> rfl

theorem areWritten_const (params : Parameters) :
    AreWritten (fun key => params[key]?.map fun value => [.text value.toList]) fun _ => params := by
  intro id key
  cases h : params[key]? with
  | none => simp [h]
  | some value => simp [h, written, Segment.write]

theorem AreWritten.insert (h : AreWritten values params) (key : String) (segments : List Segment) :
    AreWritten (fun k => if k = key then some segments else values k) fun id =>
      (params id).insert key (String.ofList (written id segments)) := by
  intro id k
  simp only [Std.TreeMap.getElem?_insert, Std.LawfulEqCmp.compare_eq_iff_eq, eq_comm (a := key)]
  split
  · rfl
  · exact h id k

end Template

def Profile.tokens (p : Profile) : Except Error (List String) := do
  Words.tokenize (← p.command)

namespace FanOut

open Template (AreWritten)

variable {ids ids' : Nat → String} {profiles : List Profile} {params : Parameters}
  {pads : StreamPads} {f f' : FanOut} {p q : Profile} {id id' : String} {ds ds' : List Directive}
  {dropCopy : Bool}

def nameValues (params : Parameters) (key : String) : Option (List Segment) :=
  if key = "out.name" then some [.text (baseName params).toList, .mark]
  else params[key]?.map fun value => [.text value.toList]

def outputValues (params : Parameters) (p : Profile) (key : String) : Option (List Segment) :=
  if key = "out.suffix" then some (Template.segments (nameValues params) p.suffixTemplate)
  else nameValues params key

theorem areWritten_name (params : Parameters) :
    AreWritten (nameValues params) fun id =>
      params.insert "out.name" (baseName params ++ "_" ++ id) := by
  have hname (id : String) :
      String.ofList (written id [.text (baseName params).toList, .mark]) =
        baseName params ++ "_" ++ id := by
    rw [← String.toList_inj]
    simp [written, Segment.write]
  have h := (Template.areWritten_const params).insert "out.name"
    [.text (baseName params).toList, .mark]
  simp only [hname] at h
  exact h

theorem areWritten_outputParameters (params : Parameters) (p : Profile) :
    AreWritten (outputValues params p) (outputParameters params p) := by
  have hname := areWritten_name params
  have h := hname.insert "out.suffix" (Template.segments (nameValues params) p.suffixTemplate)
  simp only [← hname.substitute] at h
  exact h

/-- The command ends in a word with the placeholder of the output's name. -/
def EndsInName (p : Profile) : Prop :=
  ∃ words ∈ p.tokens.toOption, ∃ last ∈ words.getLast?,
    .hole "out.name".toList ∈ Template.pieces last.toList

instance (p : Profile) : Decidable (EndsInName p) := inferInstanceAs (Decidable (∃ _ ∈ _, _))

/-- The end of the command is left as the last option of its output. -/
def KeepsEnd (params : Parameters) (dropCopy : Bool) (p : Profile) (id : String) : Prop :=
  ∀ ds ∈ (ownDirectives params p id).toOption, ∀ d ∈ ds.getLast?, d.survives dropCopy = true

instance (params : Parameters) (dropCopy : Bool) (p : Profile) (id : String) :
    Decidable (KeepsEnd params dropCopy p id) := inferInstanceAs (Decidable (∀ _ ∈ _, _))

/-- The identifier occurs in a word of the command even without being written there. -/
def Mentions (params : Parameters) (p : Profile) (id : String) : Prop :=
  ∃ words ∈ p.tokens.toOption, ∃ word ∈ words,
    id.toList <:+: (Template.substitute (outputParameters params p "") word).toList

instance (params : Parameters) (p : Profile) (id : String) : Decidable (Mentions params p id) :=
  inferInstanceAs (Decidable (∃ _ ∈ _, _))

theorem mark_mem_segments (params : Parameters) (p : Profile) {word : String}
    (h : .hole "out.name".toList ∈ Template.pieces word.toList) :
    .mark ∈ Template.segments (outputValues params p) word := by
  refine List.mem_flatMap.2 ⟨_, h, ?_⟩
  simp [Template.Piece.segments, outputValues, nameValues]

theorem written_of_tokens (params : Parameters) (p : Profile) (id word : String) :
    (Template.substitute (outputParameters params p id) word).toList =
      written id (Template.segments (outputValues params p) word) := by
  rw [(areWritten_outputParameters params p).substitute, String.toList_ofList]

/-- Words with the names of outputs are resolved to different texts. -/
theorem substitute_ne {word word' : String} (hid : IsIdentifier id) (hid' : IsIdentifier id')
    (hne : id ≠ id') (hname : .hole "out.name".toList ∈ Template.pieces word.toList)
    (hfresh : ¬ id.toList <:+: (Template.substitute (outputParameters params q "") word').toList) :
    Template.substitute (outputParameters params p id) word ≠
      Template.substitute (outputParameters params q id') word' := by
  rw [written_of_tokens] at hfresh
  rw [ne_eq, ← String.toList_inj, written_of_tokens, written_of_tokens]
  exact Identifier.written_ne hid hid' hne (mark_mem_segments params p hname) hfresh

theorem getLast?_arguments {words : List String} {last : String}
    (hname : .hole "out.name".toList ∈ Template.pieces last.toList) :
    (Template.arguments (outputParameters params p id) (words ++ [last])).getLast? =
      some (Template.substitute (outputParameters params p id) last) := by
  have hmark := Identifier.mark_infix_written (mark_mem_segments params p hname) id
  rw [← written_of_tokens] at hmark
  have hblank := Text.not_isBlankText_of_mem (hmark.subset List.mem_cons_self) (by decide)
  rw [Template.arguments_append]
  simp [Template.arguments, hblank]

/-- The last option of an output is what the last word resolves to. -/
theorem exists_getLast?_options (h : ownDirectives params p id = .ok ds) (hends : EndsInName p)
    (hkeeps : KeepsEnd params dropCopy p id) :
    ∃ words last, p.tokens = .ok (words ++ [last]) ∧
      .hole "out.name".toList ∈ Template.pieces last.toList ∧
        (ownContribution dropCopy ds).options.getLast? =
          some (Template.substitute (outputParameters params p id) last) := by
  obtain ⟨all, htokens, last, hlast, hname⟩ := hends
  obtain ⟨words, rfl⟩ := List.getLast?_eq_some_iff.1 hlast
  rw [mem_toOption_iff] at htokens
  refine ⟨words, last, htokens, hname, ?_⟩
  have hkept := hkeeps ds (mem_toOption_iff.2 h)
  obtain ⟨line, hline, h⟩ := bind_eq_ok_iff.1 h
  obtain ⟨tokens, hwords, h⟩ := bind_eq_ok_iff.1 h
  obtain rfl : tokens = words ++ [last] := by
    rw [Profile.tokens, hline] at htokens
    exact Except.ok.inj (hwords.symm.trans htokens)
  have hlast : (Template.arguments (outputParameters params p id) (words ++ [last])).getLast? =
      some (Template.substitute (outputParameters params p id) last) := getLast?_arguments hname
  rw [← (Directive.of_parse h).1] at hlast
  -- the last directive keeps its arguments, so what ends them ends the options
  obtain ⟨front, d, rfl⟩ : ∃ front d, ds = front ++ [d] := by
    refine ⟨ds.dropLast, ds.getLast ?_, (List.dropLast_append_getLast _).symm⟩
    rintro rfl
    cases hlast
  have hd := hkept d (by simp)
  simp only [List.flatMap_append, List.flatMap_singleton, List.getLast?_append] at hlast
  simp only [ownContribution, Contribution.ofDirectives, List.flatMap_append,
    List.flatMap_singleton, List.getLast?_append, Directive.options_own dropCopy d, if_pos hd]
  have hne : d.arguments.getLast?.isSome = true := by
    simpa using d.arguments_ne_nil
  obtain ⟨argument, hargument⟩ := Option.isSome_iff_exists.1 hne
  rw [hargument] at hlast ⊢
  exact hlast

def targets (f : FanOut) (cs : List Contribution) : List (Option String) :=
  cs.zipIdx.map fun (c, index) => (outputGroup f.video f.audio index c).getLast?

theorem exists_of_mem_targets {read : List (List Directive)} {target : Option String}
    (h : target ∈ targets f ((taking dropCopy read).map (ownContribution dropCopy))) :
    ∃ ds ∈ read, target = (ownContribution dropCopy ds).options.getLast? := by
  obtain ⟨⟨c, index⟩, hplace, rfl⟩ := List.mem_map.1 h
  have hc := List.mem_of_getElem? (List.mem_zipIdx_iff_getElem?.1 hplace)
  obtain ⟨ds, hds, rfl⟩ := List.mem_map.1 hc
  refine ⟨ds, List.mem_of_mem_filter hds, ?_⟩
  have hlast := List.getLast?_eq_some_getLast (options_ne_nil_of_mem_taking hds)
  show (_ ++ (ownContribution dropCopy ds).options).getLast? = _
  rw [List.getLast?_append, hlast]
  rfl

/-- Two runs name the outputs of the profiles apart: the ends of their commands are names of
outputs, and no identifier of the first run is one of the second, or occurs in a command. -/
structure NamedApart (params : Parameters) (profiles : List Profile) (ids ids' : Nat → String) :
    Prop where
  isIdentifier : ∀ k < profiles.length, IsIdentifier (ids k) ∧ IsIdentifier (ids' k)
  ne : ∀ j < profiles.length, ∀ k < profiles.length, ids j ≠ ids' k
  fresh : ∀ k < profiles.length, ∀ p ∈ profiles, ¬ Mentions params p (ids k)
  endsInName : ∀ p ∈ profiles, EndsInName p
  keepsEnd : ∀ x ∈ profiles.zipIdx, KeepsEnd params (1 < profiles.length) x.1 (ids x.2) ∧
    KeepsEnd params (1 < profiles.length) x.1 (ids' x.2)

/-- Outputs of their own have other targets in another run. -/
theorem targets_disjoint (hdelivery : ∀ p ∈ profiles, p.adaptiveType? = none)
    (h : build ids profiles params pads = .ok f) (h' : build ids' profiles params pads = .ok f')
    (hapart : NamedApart params profiles ids ids') :
    ∃ cs cs', contributions ids params ⟨profiles, none⟩ = .ok cs ∧
      contributions ids' params ⟨profiles, none⟩ = .ok cs' ∧
        f.arguments = outputGroups f.video f.audio (active cs) ∧
          f'.arguments = outputGroups f'.video f'.audio (active cs') ∧
            ∀ target ∈ targets f (active cs), target ∉ targets f' (active cs') := by
  obtain ⟨read, hread, hassembled, harguments⟩ := exists_of_build_own hdelivery h
  obtain ⟨read', hread', hassembled', harguments'⟩ := exists_of_build_own hdelivery h'
  refine ⟨_, _, hassembled.contributions_eq, hassembled'.contributions_eq, ?_, ?_, ?_⟩
  · rw [harguments, active_ownContributions]
  · rw [harguments', active_ownContributions]
  intro target htarget htarget'
  rw [active_ownContributions] at htarget htarget'
  obtain ⟨ds, hds, rfl⟩ := exists_of_mem_targets htarget
  obtain ⟨ds', hds', heq⟩ := exists_of_mem_targets htarget'
  obtain ⟨p, k, hplace, howns⟩ := exists_of_mem_ownReadings hread hds
  obtain ⟨q, k', hplace', howns'⟩ := exists_of_mem_ownReadings hread' hds'
  obtain ⟨hk, hp⟩ := List.getElem?_eq_some_iff.1 (List.mem_zipIdx_iff_getElem?.1 hplace)
  obtain ⟨hk', hq⟩ := List.getElem?_eq_some_iff.1 (List.mem_zipIdx_iff_getElem?.1 hplace')
  have hpmem : p ∈ profiles := List.mem_of_getElem hp
  have hqmem : q ∈ profiles := List.mem_of_getElem hq
  obtain ⟨words, last, _, hname, hlast⟩ :=
    exists_getLast?_options howns (hapart.endsInName p hpmem) (hapart.keepsEnd _ hplace).1
  obtain ⟨words', last', htokens', _, hlast'⟩ :=
    exists_getLast?_options howns' (hapart.endsInName q hqmem) (hapart.keepsEnd _ hplace').2
  rw [hlast, hlast'] at heq
  refine substitute_ne (hapart.isIdentifier k hk).1 (hapart.isIdentifier k' hk').2
    (hapart.ne k hk k' hk') hname (fun hmentioned => ?_) (Option.some.inj heq)
  exact hapart.fresh k hk q hqmem ⟨_, mem_toOption_iff.2 htokens', last', by simp, hmentioned⟩

/-- With a group no output has a name of its own, so the identifiers do not matter. -/
theorem build_eq_of_adaptive (h : build ids profiles params pads = .ok f) (hf : f.adaptive = true)
    (ids' : Nat → String) : build ids' profiles params pads = .ok f := by
  obtain ⟨roles, cs, hroles, hassembled⟩ := exists_assembled h
  have hgroup : roles.group.isSome = true := hassembled.adaptive_eq.symm.trans hf
  have hcontributions : contributions ids' params roles = contributions ids params roles := by
    simp only [contributions, hgroup, if_true]
  rw [← h, build, build, hroles]
  simp only [bind, Except.bind, hcontributions]

theorem forall_of_not_adaptive (h : build ids profiles params pads = .ok f)
    (hf : f.adaptive = false) : ∀ p ∈ profiles, p.adaptiveType? = none := by
  obtain ⟨roles, cs, hroles, hassembled⟩ := exists_assembled h
  refine forall_of_rolesOf_eq_ok hroles ?_
  rw [← Option.not_isSome_iff_eq_none, ← hassembled.adaptive_eq, hf]
  exact Bool.false_ne_true

end FanOut

namespace EditRequest

variable {site : Site} {request : EditRequest} {profiles : List Profile} {ids ids' : Nat → String}
  {plan plan' : Plan} {first : Path} {params : Parameters}

open FanOut

theorem plan_eq_of_build (h : request.plan site ids profiles = .ok plan)
    (hbuild : ∀ params, build ids profiles params plan.cut.pads = .ok plan.outputs →
      build ids' profiles params plan.cut.pads = .ok plan.outputs) :
    request.plan site ids' profiles = .ok plan := by
  obtain ⟨first, params, hfirst, hseveral, hprofiles, hcut, hparams, houtputs, hinputs⟩ :=
    plan_eq_ok_iff.1 h
  exact plan_eq_ok_iff.2
    ⟨first, params, hfirst, hseveral, hprofiles, hcut, hparams, hbuild params houtputs, hinputs⟩

/-- An edit that is compiled again has other targets, unless it writes a group: then it is the
same command again. -/
theorem targets_of_plan (hfirst : request.inputs.head? = some first)
    (hparams : parameters site first = .ok params)
    (h : request.plan site ids profiles = .ok plan)
    (h' : request.plan site ids' profiles = .ok plan') :
    (plan.outputs.adaptive = true → plan' = plan) ∧
      (plan.outputs.adaptive = false → NamedApart params profiles ids ids' →
        ∃ cs cs', contributions ids params ⟨profiles, none⟩ = .ok cs ∧
          contributions ids' params ⟨profiles, none⟩ = .ok cs' ∧
            plan.outputs.arguments =
              outputGroups plan.outputs.video plan.outputs.audio (active cs) ∧
            plan'.outputs.arguments =
              outputGroups plan'.outputs.video plan'.outputs.audio (active cs') ∧
            ∀ target ∈ targets plan.outputs (active cs),
              target ∉ targets plan'.outputs (active cs')) := by
  constructor
  · intro hadaptive
    have hsame := plan_eq_of_build h fun _ hbuild => build_eq_of_adaptive hbuild hadaptive ids'
    exact Except.ok.inj (h'.symm.trans hsame)
  · intro hadaptive hapart
    -- both runs cut the same input and share their parameters
    have hshared {ids : Nat → String} {plan : Plan} (h : request.plan site ids profiles = .ok plan) :
        request.cut (request.transitionIn site.settings) = .ok plan.cut ∧
          build ids profiles params plan.cut.pads = .ok plan.outputs := by
      obtain ⟨_, _, hhead, hall, hcut, houtputs⟩ := exists_of_plan h
      obtain rfl := Option.some.inj (hfirst.symm.trans hhead)
      obtain rfl := Except.ok.inj (hparams.symm.trans hall)
      exact ⟨hcut, houtputs⟩
    have hcut : plan.cut = plan'.cut := Except.ok.inj ((hshared h).1.symm.trans (hshared h').1)
    have houtputs := (hshared h).2
    have houtputs' := (hshared h').2
    rw [← hcut] at houtputs'
    exact targets_disjoint (forall_of_not_adaptive houtputs hadaptive) houtputs houtputs' hapart

/-- Two outputs, one with its name in its suffix too and one with a filter. -/
theorem targets_of_plan_two :
    let profile (identifier command : String) (suffix : Option String) : Profile :=
      { identifier, name := "p", input := .audioVisual, output := .audioVisual, suffix
        extensions := Std.TreeMap.ofList [(Template.commandKey, command)] }
    let profiles := [
      profile "low" "-c:v libx264 #\x7bout.dir\x7d/#\x7bout.name\x7d#\x7bout.suffix\x7d"
        (some "-#\x7bout.name\x7d.mp4"),
      profile "high" "-vf scale=640:-2 #\x7bout.dir\x7d/#\x7bout.name\x7d.mp4" none]
    let site : Site := ⟨{ outputDirectory := some ⟨"/out"⟩ }, ⟨"/"⟩⟩
    let request : EditRequest := { inputs := [⟨"/in/talk.mp4"⟩] }
    let params := (parameters site ⟨"/in/talk.mp4"⟩).toOption.getD ∅
    let ids := Identifier.fresh 0
    let ids' := Identifier.fresh 100
    ∃ plan plan' cs cs', parameters site ⟨"/in/talk.mp4"⟩ = .ok params ∧
      request.plan site ids profiles = .ok plan ∧ request.plan site ids' profiles = .ok plan' ∧
      plan.outputs.adaptive = false ∧ NamedApart params profiles ids ids' ∧
      contributions ids params ⟨profiles, none⟩ = .ok cs ∧
      contributions ids' params ⟨profiles, none⟩ = .ok cs' ∧
      plan.outputs.arguments = outputGroups plan.outputs.video plan.outputs.audio (active cs) ∧
      ∀ target ∈ targets plan.outputs (active cs), target ∉ targets plan'.outputs (active cs') := by
  intro profile profiles site request params ids ids'
  have hparams : parameters site ⟨"/in/talk.mp4"⟩ = .ok params := by
    obtain ⟨_, h, _⟩ := exists_of_map_toOption (f := fun _ => ())
      (show (parameters site ⟨"/in/talk.mp4"⟩).toOption.map _ = some () by decide +kernel)
    simp only [params, h]
    rfl
  have hplan (k : Nat) (hk : k = 0 ∨ k = 100) :
      (request.plan site (Identifier.fresh k) profiles).toOption.map (·.outputs.adaptive) =
        some false := by
    rcases hk with rfl | rfl <;> decide +kernel
  obtain ⟨plan, h, hadaptive⟩ := exists_of_map_toOption (hplan 0 (Or.inl rfl))
  obtain ⟨plan', h', _⟩ := exists_of_map_toOption (hplan 100 (Or.inr rfl))
  have hapart : NamedApart params profiles ids ids' := by
    refine ⟨fun k _ => ⟨Identifier.isIdentifier_fresh 0 k, Identifier.isIdentifier_fresh 100 k⟩,
      ?_, ?_, ?_, ?_⟩ <;> decide +kernel
  obtain ⟨cs, cs', hcs, hcs', harguments, _, hdisjoint⟩ :=
    (targets_of_plan rfl hparams h h').2 hadaptive hapart
  exact ⟨plan, plan', cs, cs', hparams, h, h', hadaptive, hapart, hcs, hcs', harguments, hdisjoint⟩

/-- The playlists of a group have the same name in both runs, though its command ends in a name
and the identifiers are different. -/
theorem targets_of_group :
    let profile (identifier command : String) (more : List (String × String)) : Profile :=
      { identifier, name := "p", input := .audioVisual, output := .audioVisual
        extensions := Std.TreeMap.ofList ((Template.commandKey, command) :: more) }
    let profiles := [
      profile "low" "-c:v libx264 #\x7bout.dir\x7d/#\x7bout.name\x7d.mp4" [],
      profile "hls" "-f hls #\x7bout.dir\x7d/#\x7bout.name\x7d_%v.m3u8"
        [(Profile.adaptiveKey, "HLS")]]
    let site : Site := ⟨{ outputDirectory := some ⟨"/out"⟩ }, ⟨"/"⟩⟩
    let request : EditRequest := { inputs := [⟨"/in/talk.mp4"⟩] }
    (∀ p ∈ profiles, EndsInName p) ∧
      (∀ j < 2, ∀ k < 2, Identifier.fresh 0 j ≠ Identifier.fresh 100 k) ∧
      ∀ start ∈ [0, 100], (request.compile site (Identifier.fresh start) profiles).toOption.map
        (fun command => (command.adaptive, command.arguments.getLast?)) =
          some (true, some "/out/talk_%v.m3u8") := by
  decide +kernel

end EditRequest

end Montage
