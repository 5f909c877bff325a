import Montage.Proofs.Concat.FragmentText
import Montage.Proofs.Engine.Cleanup
import Montage.Proofs.Engine.Parameters

/-!
# The inputs of a concatenation

A concatenation is compiled from a profile whose command is the fragment and one word
for the output. What a compilation adds to the parameters is no fragment
(`exists_parametersFor`), so the line that is split into words is known
(`ConcatRequest.exists_arguments`).

The paths stand in that line, and the line is read again. So they arrive at the encoder
exactly if they are quotable, apart from `#`, which may begin a placeholder
(`ConcatRequest.namesInputs_iff_isQuotable`).
-/

namespace Montage

open Template

variable {path : Path}

theorem exists_absolute (cwd : Path) (hpath : path.text ≠ "") :
    ∃ absolute, MediaFile.absolute cwd path = .ok absolute := by
  unfold MediaFile.absolute Path.absolute?
  rw [if_neg hpath]
  exact ⟨_, rfl⟩

theorem exists_outputDirectory (site : Site) (hpath : path.text ≠ "") :
    ∃ directory, site.outputDirectory path = .ok directory := by
  unfold Site.outputDirectory
  split
  · exact ⟨_, rfl⟩
  · obtain ⟨absolute, habsolute⟩ := exists_absolute site.cwd hpath
    rw [habsolute]
    exact ⟨_, rfl⟩

theorem exists_parametersFor (site : Site) (id : String) (hpath : path.text ≠ "") (p : Profile)
    (properties : Parameters) :
    ∃ params, parametersFor site id [⟨"video", path⟩] p properties = .ok params ∧
      SameFragments properties params := by
  rcases parametersFor_cases site [⟨"video", path⟩] p with ⟨e, hfailed⟩ | hmade
  · obtain ⟨directory, hdirectory⟩ := exists_outputDirectory site hpath
    obtain ⟨absolute, habsolute⟩ := exists_absolute site.cwd hpath
    have hall : Source.describeAll site.cwd [⟨"video", path⟩] properties =
        .ok (properties.insertMany (MediaFile.facts "video" absolute)) := by
      unfold Source.describeAll MediaFile.describe
      rw [List.foldlM_cons, habsolute]
      rfl
    have hprimary : Source.primary? [⟨"video", path⟩] = some ⟨"video", path⟩ := by
      simp [Source.primary?]
    have hfailed := hfailed id properties
    unfold parametersFor at hfailed
    rw [hprimary] at hfailed
    dsimp only at hfailed
    rw [hall, hdirectory] at hfailed
    cases hfailed
  · obtain ⟨params, hparams, hextends⟩ := hmade id properties
    exact ⟨params, hparams, hextends.sameFragments⟩

theorem Template.OnlyFragment.insert {properties params : Parameters} {name value line : String}
    (h : OnlyFragment properties name line)
    (hsame : SameFragments (properties.insert (fragmentKey name) value) params) :
    OnlyFragment params name line := by
  intro other hother hmem
  apply h other hother
  have hne : compare (fragmentKey name) (fragmentKey other) ≠ .eq := by
    rw [ne_eq, Std.LawfulEqCmp.compare_eq_iff_eq]
    exact fun heq => hother (fragmentKey_injective heq).symm
  rw [Std.TreeMap.mem_iff_isSome_getElem?, hsame, Std.TreeMap.getElem?_insert, if_neg hne] at hmem
  rwa [Std.TreeMap.mem_iff_isSome_getElem?]

theorem Profile.toOption_arguments {p : Profile} {params : Parameters} {line expanded : String}
    (hcommand : p.command? = some line) (hexpand : expand params line = expanded) :
    (p.arguments params).toOption =
      (Words.ofLine? expanded).map (Template.arguments params) := by
  have hline : p.command = .ok line := by
    unfold Profile.command
    rw [hcommand]
  unfold Profile.arguments Profile.words
  rw [hline]
  dsimp only [bind, Except.bind]
  rw [hexpand]
  cases Words.ofLine? expanded with
  | none => rfl
  | some words => rfl

theorem toOption_compile {site : Site} {id : String} {sources : List Source} {p : Profile}
    {properties params : Parameters}
    (hparams : parametersFor site id sources p properties = .ok params) :
    (compile site id sources p properties).toOption.map (·.arguments) =
      (p.arguments params).toOption.map (["-nostdin", "-nostats"] ++ ·) := by
  unfold compile
  rw [hparams]
  show Option.map _ (Except.toOption (p.arguments params >>= _)) = _
  cases p.arguments params with
  | error e => rfl
  | ok arguments => rfl

namespace ConcatRequest

variable {request : ConcatRequest} {p : Profile} {properties : Parameters} {size : FrameSize}
  {out : String}

theorem exists_arguments (hvalid : Concat.validate request.inputs = .ok ())
    (hsize : request.size = some size) (hpaths : ∀ input ∈ request.inputs, input.path.text ≠ "")
    (hcommand : p.command? = some (placeholder "concatCommand" ++ " " ++ out))
    (hout : ¬ (placeholder "concatCommand").toList <:+: out.toList)
    (hbefore : OnlyFragment properties "concatCommand" (placeholder "concatCommand" ++ " " ++ out))
    (hafter : ∀ fragment, Concat.fragment request.inputs request.size request.rate = .ok fragment →
      OnlyFragment properties "concatCommand" (fragment ++ " " ++ out))
    (site : Site) (id : String) :
    ∃ graph params, IsPlainArgument graph ∧
      (request.compile site id none p properties).toOption.map (·.arguments) =
        (Words.ofLine? (Concat.sources request.inputs ++
          Concat.output request.inputs graph out)).map fun words =>
            ["-nostdin", "-nostats"] ++ Template.arguments params words := by
  obtain ⟨fragment, graph, hfragment, hgraph, hline⟩ :=
    Concat.exists_fragment hvalid size request.rate
  rw [← hsize] at hfragment
  obtain ⟨first, others, hinputs⟩ : ∃ first others, request.inputs = first :: others := by
    cases hinputs : request.inputs with
    | nil =>
      rw [hinputs] at hvalid
      cases hvalid
    | cons first others => exact ⟨first, others, rfl⟩
  have hfirst := hpaths first (by rw [hinputs]; exact List.mem_cons_self)
  obtain ⟨params, hparams, hsame⟩ := exists_parametersFor site id hfirst p
    (properties.insert (fragmentKey "concatCommand") fragment)
  have hvalue : params[fragmentKey "concatCommand"]? = some fragment := by
    rw [hsame, Std.TreeMap.getElem?_insert_self]
  have hrest : ¬ (placeholder "concatCommand").toList <:+: (" " ++ out).toList := by
    intro hinfix
    rw [String.toList_append] at hinfix
    rcases List.infix_cons_iff.1 hinfix with hprefix | hinfix
    · exact absurd (List.cons_prefix_cons.1 hprefix).1 (by decide)
    · exact hout hinfix
  have hexpand := expand_placeholder hvalue hrest
    (by rw [← String.append_assoc]; exact hbefore.insert hsame)
    (by rw [← String.append_assoc]; exact (hafter fragment hfragment).insert hsame)
  rw [← String.append_assoc, ← String.append_assoc, hline] at hexpand
  have hcompile : request.compile site id none p properties =
      Montage.compile site id [⟨"video", first.path⟩] p
        (properties.insert (fragmentKey "concatCommand") fragment) := by
    unfold ConcatRequest.compile ConcatRequest.fragment
    dsimp only
    rw [hvalid, hfragment, hinputs]
    rfl
  refine ⟨graph, params, hgraph, ?_⟩
  rw [hcompile, toOption_compile hparams, Profile.toOption_arguments hcommand hexpand,
    Option.map_map]
  rfl

end ConcatRequest

theorem outcome_prepareList {request : ConcatRequest} {w : Workbench}
    (hvalid : Concat.validate request.inputs = .ok ()) (hcodec : request.sameCodec = false) :
    request.prepareList.outcome w = (.ok none, w) := by
  unfold ConcatRequest.prepareList
  rw [hvalid, hcodec]
  rfl

theorem Operation.outcome_dryRun_concat {request : ConcatRequest} {p : Profile}
    {properties : Parameters} {w : Workbench} (hvalid : Concat.validate request.inputs = .ok ())
    (hcodec : request.sameCodec = false) :
    (Operation.concat request p properties).dryRun.outcome w =
      ((request.compile w.site (w.freshIds 0) none p properties).map fun c => [c], w.useIds 1) := by
  unfold Operation.dryRun
  dsimp only
  unfold ConcatRequest.withCommand
  rw [Work.outcome_bind, outcome_prepareList hvalid hcodec]
  dsimp only
  rw [Tidy.outcome_during, Work.outcome_bind, Work.outcome_compile]
  cases request.compile w.site (w.freshIds 0) none p properties with
  | error e => rfl
  | ok command => rfl

namespace ConcatRequest

/-- The command of the concatenation is there, and its inputs are the paths that were
given. -/
def NamesInputs (request : ConcatRequest) (p : Profile) (properties : Parameters)
    (w : Workbench) : Prop :=
  ∃ command w', (Operation.concat request p properties).dryRun.outcome w = (.ok [command], w') ∧
    Command.inputFiles command.arguments = request.inputs.map (·.path.text)

variable {request : ConcatRequest} {p : Profile} {properties : Parameters} {size : FrameSize}
  {out word : String} {w : Workbench}

/-- Whether the inputs arrive is seen from the words of the line. -/
theorem namesInputs_iff_words {line : String} {params : Parameters}
    (hvalid : Concat.validate request.inputs = .ok ()) (hcodec : request.sameCodec = false)
    (harguments : (request.compile w.site (w.freshIds 0) none p properties).toOption.map
      (·.arguments) = (Words.ofLine? line).map fun words =>
        ["-nostdin", "-nostats"] ++ Template.arguments params words) :
    request.NamesInputs p properties w ↔ ∃ words, Words.ofLine? line = some words ∧
      Command.inputFiles (Template.arguments params words) = request.inputs.map (·.path.text) := by
  have hfront (rest : List String) :
      Command.inputFiles (["-nostdin", "-nostats"] ++ rest) = Command.inputFiles rest :=
    Command.inputFiles_append_of_not_mem (by decide) rest
  unfold NamesInputs
  rw [Operation.outcome_dryRun_concat hvalid hcodec]
  constructor
  · rintro ⟨command, w', hdone, hfiles⟩
    obtain ⟨_, hcompile, hsingle⟩ := map_eq_ok_iff.1 (Prod.mk.inj hdone).1
    obtain rfl := (List.cons.inj hsingle).1
    rw [hcompile] at harguments
    obtain ⟨words, hwords, heq⟩ := Option.map_eq_some_iff.1 harguments.symm
    refine ⟨words, hwords, ?_⟩
    rw [← hfront, heq]
    exact hfiles
  · rintro ⟨words, hwords, hfiles⟩
    rw [hwords] at harguments
    obtain ⟨command, hcompile, hcommand⟩ := exists_of_map_toOption harguments
    refine ⟨command, w.useIds 1, by rw [hcompile]; rfl, ?_⟩
    rw [hcommand, hfront, hfiles]

/-- Paths that are quotable and have no placeholders arrive as they are. Of paths without
`#` these are all: if any of them is not quotable, the inputs do not arrive. -/
theorem namesInputs_iff_isQuotable (hvalid : Concat.validate request.inputs = .ok ())
    (hblank : ∀ input ∈ request.inputs, Text.isBlankText input.path.text = false)
    (hsize : request.size = some size) (hcodec : request.sameCodec = false)
    (hcommand : p.command? = some (placeholder "concatCommand" ++ " " ++ out))
    (hword : Words.ofLine? out = some [word])
    (hout : ¬ (placeholder "concatCommand").toList <:+: out.toList)
    (hbefore : OnlyFragment properties "concatCommand" (placeholder "concatCommand" ++ " " ++ out))
    (hafter : ∀ fragment, Concat.fragment request.inputs request.size request.rate = .ok fragment →
      OnlyFragment properties "concatCommand" (fragment ++ " " ++ out)) :
    ((∀ input ∈ request.inputs, input.path.IsQuotable ∧ IsLiteral input.path.text) →
      request.NamesInputs p properties w) ∧
    ((∀ input ∈ request.inputs, '#' ∉ input.path.text.toList) →
      (request.NamesInputs p properties w ↔ ∀ input ∈ request.inputs, input.path.IsQuotable)) := by
  obtain ⟨graph, params, hgraph, harguments⟩ := exists_arguments hvalid hsize
    (fun i hi => Text.ne_empty_of_not_isBlankText (hblank i hi)) hcommand hout hbefore hafter
    w.site (w.freshIds 0)
  rw [namesInputs_iff_words hvalid hcodec harguments]
  have hnames (h : ∀ input ∈ request.inputs, input.path.IsQuotable ∧ IsLiteral input.path.text) :
      ∃ words, Words.ofLine? (Concat.sources request.inputs ++
        Concat.output request.inputs graph out) = some words ∧
      Command.inputFiles (Template.arguments params words) = request.inputs.map (·.path.text) := by
    obtain ⟨words, hwords, hfiles⟩ := Concat.exists_words_of_isQuotable params
      (fun i hi => ⟨(h i hi).1, (h i hi).2, hblank i hi⟩) (Concat.ofLine?_output hgraph hword)
    rw [Concat.inputFiles_joinWords hgraph, List.append_nil] at hfiles
    exact ⟨words, hwords, hfiles⟩
  refine ⟨hnames, fun hhash => ⟨?_, ?_⟩⟩
  · rintro ⟨words, hwords, hfiles⟩
    have hname : IsInert "filter_complex" := by decide
    exact Concat.isQuotable_of_inputFiles (fun i hi => ⟨hhash i hi, hblank i hi⟩) hname hwords
      hfiles
  · intro h
    exact hnames fun i hi => ⟨h i hi, isLiteral_of_not_mem (hhash i hi)⟩

/-- A blank in a path makes room for double quotes, but not for an apostrophe. -/
theorem namesInputs_of_blank_path :
    let request (first second : String) : ConcatRequest :=
      { inputs := [⟨⟨first⟩, true, true⟩, ⟨⟨second⟩, true, false⟩], size := some ⟨1280, 720⟩ }
    let p : Profile :=
      { identifier := "concat", name := "p", input := .audioVisual, output := .audioVisual
        extensions := Std.TreeMap.ofList [(commandKey,
          "#\x7bconcatCommand\x7d #\x7bout.dir\x7d/#\x7bout.name\x7d.mp4")] }
    let w : Workbench := { ids := fun _ => "id", marks := [] }
    (request "/in/my \"best\" \\ talk.mp4" "/in/b#2.mp4").NamesInputs p ∅ w ∧
      ¬ (request "/in/my talk.mp4" "/in/it's 2.mp4").NamesInputs p ∅ w := by
  intro request p w
  have hcommand : p.command? = some (placeholder "concatCommand" ++ " " ++
      "#\x7bout.dir\x7d/#\x7bout.name\x7d.mp4") := by decide +kernel
  have hword : Words.ofLine? "#\x7bout.dir\x7d/#\x7bout.name\x7d.mp4" =
      some ["#\x7bout.dir\x7d/#\x7bout.name\x7d.mp4"] := by decide +kernel
  have hout : ¬ (placeholder "concatCommand").toList <:+:
      "#\x7bout.dir\x7d/#\x7bout.name\x7d.mp4".toList := by decide +kernel
  have hnone (line : String) : OnlyFragment ∅ "concatCommand" line := fun _ _ hmem =>
    absurd hmem Std.TreeMap.not_mem_emptyc
  have hsize (first second : String) : (request first second).size = some ⟨1280, 720⟩ := rfl
  constructor
  · apply (namesInputs_iff_isQuotable rfl (by decide +kernel) (hsize _ _) rfl hcommand hword hout
      (hnone _) fun _ _ => hnone _).1
    decide +kernel
  · rw [(namesInputs_iff_isQuotable rfl (by decide +kernel) (hsize _ _) rfl hcommand hword hout
      (hnone _) fun _ _ => hnone _).2 (by decide +kernel)]
    decide +kernel

/-- An apostrophe leaves the quotes open, double quotes get lost, and so does what looks
like a placeholder. -/
theorem inputFiles_of_marked_paths :
    let request (path : String) : ConcatRequest :=
      { inputs := [⟨⟨path⟩, false, true⟩, ⟨⟨"/in/b.mp4"⟩, false, true⟩], size := some ⟨1280, 720⟩ }
    let p : Profile :=
      { identifier := "concat", name := "p", input := .audioVisual, output := .audioVisual
        extensions := Std.TreeMap.ofList [(commandKey,
          "#\x7bconcatCommand\x7d #\x7bout.dir\x7d/#\x7bout.name\x7d.mp4")] }
    let w : Workbench :=
      { settings := { outputDirectory := some ⟨"/out"⟩ }, ids := fun _ => "id", marks := [] }
    let files (path : String) : Option (List (List String)) :=
      ((Operation.concat (request path) p ∅).dryRun.outcome w).1.toOption.map
        fun commands => commands.map fun command => Command.inputFiles command.arguments
    let marked := ["/in/it's.mp4", "/in/a\"b\".mp4", "/in/a#\x7bb\x7d.mp4"]
    (∀ path ∈ marked, Concat.validate (request path).inputs = .ok () ∧
      Text.isBlankText path = false) ∧
    marked.map files = [none, some [["/in/ab.mp4", "/in/b.mp4"]],
      some [["/in/a.mp4", "/in/b.mp4"]]] ∧
    ∀ path ∈ marked, ¬ (request path).NamesInputs p ∅ w := by
  intro request p w files marked
  have hmade (path : String) (h : (request path).NamesInputs p ∅ w) :
      files path = some [[path, "/in/b.mp4"]] := by
    obtain ⟨command, w', hdone, hinputs⟩ := h
    have hfiles : files path = some [Command.inputFiles command.arguments] := by
      show Option.map _ (Except.toOption (Work.outcome _ _).1) = _
      rw [hdone]
      rfl
    rw [hfiles, hinputs]
    rfl
  have hmark : files "/in/it's.mp4" = none := by decide +kernel
  have hquote : files "/in/a\"b\".mp4" = some [["/in/ab.mp4", "/in/b.mp4"]] := by decide +kernel
  have hhole : files "/in/a#\x7bb\x7d.mp4" = some [["/in/a.mp4", "/in/b.mp4"]] := by
    decide +kernel
  refine And.intro (by decide +kernel) (And.intro ?_ ?_)
  · show [files _, files _, files _] = _
    rw [hmark, hquote, hhole]
  · have hother : ∀ path ∈ marked, files path ≠ some [[path, "/in/b.mp4"]] := by
      rw [List.forall_mem_cons, List.forall_mem_cons, List.forall_mem_singleton]
      refine ⟨?_, ?_, ?_⟩
      · rw [hmark]
        decide
      · rw [hquote]
        decide
      · rw [hhole]
        decide
    exact fun path hpath h => hother path hpath (hmade path h)

end ConcatRequest

end Montage
