import Montage.Proofs.Engine.Tidy
import Montage.Proofs.Playlist.Tracing

/-!
# Nothing half done is left

An operation that fails leaves no file that one of its encoder runs announced, if
deletions are not refused. A file that was renamed is not left at its new path
either.

The operations that rename nothing are put together of tidy works. An edit with a
group renames segments, and then a file is found again by the list that the
renaming keeps. That list names the path where a file is now, so nothing is left
there. Whether nothing is left at the path that was announced depends on what is
renamed, see `Playlist.Variants.KeepsTrack`: the new name of one file may be the old
name of another one, and it is removed only as long as its path in the list leads to
it.
-/

namespace Montage

open Workbench Playlist

namespace Tidy

theorem single (command : Command) (files : List Path) :
    Tidy files (Work.single command files) fun file => [file] := by
  unfold Work.single
  split
  · exact Tidy.pure fun _ hp => hp
  · constructor
    · intro w w' a _ hdone
      obtain ⟨_, _, hremoved, hfailed⟩ := Work.exists_of_bind_eq_ok hdone
      cases hfailed
    · intro w w' e hremove hdone
      rcases Work.cases_of_bind_eq_error hdone with hremoved | ⟨_, w1, hremoved, hfailed⟩
      · cases hremoved
      · cases hremoved
        cases hfailed
        refine ⟨follows_removeFiles w files, ?_⟩
        intro p hp
        exact not_isFile_removeFiles hremove p (hp.resolve_right (not_recorded rfl))

theorem runSingle (command : Command) : Tidy [] (Work.runSingle command) fun file => [file] :=
  (Tidy.runCommand command).bind (single command)

theorem makeImages (source : Path) (p : Profile) (all : List Parameters) (made : List Path) :
    Tidy made (makeImages source p made all) fun images => images := by
  induction all generalizing made with
  | nil => exact Tidy.pure fun _ hp => hp
  | cons properties all ih =>
      have himage := (Tidy.compile 1 fun site ids =>
        compileEncode site (ids 0) source p properties).bind fun command => runSingle command
      exact (onFailure himage made).bind fun image => ih (made ++ [image])

theorem outcome_create (inputs : List ConcatInput) (w : Workbench) :
    ∃ d, d.refuses = w.disk.refuses ∧
      ((TrackList.create inputs).outcome w).2 = { w with disk := d } := by
  unfold TrackList.create
  rw [Work.outcome_get_bind]
  split
  · exact ⟨w.disk, rfl, rfl⟩
  · rename_i path d hcreate
    have hmade := Disk.refuses_createTemporary hcreate
    rw [Work.outcome_set_bind]
    split
    · rename_i d' hwrite
      exact ⟨d', (Disk.refuses_write hwrite).trans hmade, rfl⟩
    · exact ⟨removeFile d path, (refuses_removeFile d path).trans hmade, rfl⟩

theorem create (inputs : List ConcatInput) : Tidy [] (TrackList.create inputs) fun _ => [] := by
  apply of_quiet
  intro w
  obtain ⟨d, hrefuses, hdone⟩ := outcome_create inputs w
  rw [hdone]
  exact ⟨rfl, List.prefix_refl _, rfl, hrefuses⟩

theorem prepareList (request : ConcatRequest) : Tidy [] request.prepareList fun _ => [] := by
  unfold ConcatRequest.prepareList
  refine (Tidy.ofExcept _).bind fun _ => ?_
  split
  · exact (create request.inputs).bind fun _ => Tidy.pure fun _ hp => hp
  · exact Tidy.pure fun _ hp => hp

theorem outcome_during {α : Type} (list : Option Path) (job : Work α) (w : Workbench) :
    (TrackList.during list job).outcome w =
      ((job.outcome w).1, { (job.outcome w).2 with
        disk := removeFiles (job.outcome w).2.disk list.toList }) := by
  unfold TrackList.during Work.outcome ExceptT.run StateT.run
  rfl

theorem during {α : Type} {job : Work α} {made : α → List Path} (list : Option Path)
    (h : Tidy [] job made) : Tidy [] (TrackList.during list job) made := by
  constructor
  · intro w w' a hremove hdone
    rw [outcome_during] at hdone
    cases hjob : job.outcome w with
    | mk result w1 =>
        rw [hjob] at hdone
        cases hdone
        obtain ⟨hfollows, hmade⟩ := h.ok hremove hjob
        exact ⟨hfollows.trans (follows_removeFiles w1 list.toList), hmade⟩
  · intro w w' e hremove hdone
    rw [outcome_during] at hdone
    cases hjob : job.outcome w with
    | mk result w1 =>
        rw [hjob] at hdone
        cases hdone
        obtain ⟨hfollows, hgone⟩ := h.error hremove hjob
        refine ⟨hfollows.trans (follows_removeFiles w1 list.toList), ?_⟩
        intro p hp
        exact not_isFile_of_within (within_removeFiles w1.disk list.toList) (hgone p hp)

theorem withCommand {α : Type} {request : ConcatRequest} {p : Profile} {properties : Parameters}
    {use : Command → Option Path → Work α} {made : α → List Path}
    (h : ∀ command list, Tidy [] (use command list) made) :
    Tidy [] (request.withCommand p properties use) made := by
  refine (prepareList request).bind fun list => during list ?_
  exact (Tidy.compile 1 _).bind fun command => h command list

end Tidy

theorem outcome_renameVariants (command : Command) (files : List Path) (w : Workbench) :
    (renameVariants command files).outcome w =
      match renameSegments w.disk files command.segmentSuffixes with
      | (renamed, none) => (.ok renamed.files, { w with disk := renamed.disk })
      | (renamed, some fault) =>
        (.error (.system fault),
          { w with disk := removeFiles renamed.disk renamed.files }) := by
  unfold renameVariants
  rw [Work.outcome_get_bind]
  cases renameSegments w.disk files command.segmentSuffixes with
  | mk renamed fault =>
      cases fault with
      | none => rfl
      | some fault => rfl

/-- When a renaming fails, the files in its list are removed. -/
theorem of_nameFiles_eq_error {command : Command} {files : List Path} {w w' : Workbench}
    {e : Error} (h : (nameFiles command files).outcome w = (.error e, w')) :
    command.adaptive = true ∧ ∃ v : Variants, v = ⟨w.disk, files, command.segmentSuffixes⟩ ∧
      w' = { w with disk := removeFiles v.renamed.disk v.renamed.files } := by
  unfold nameFiles at h
  split at h
  · rename_i hadaptive
    refine ⟨hadaptive, _, rfl, ?_⟩
    rw [outcome_renameVariants] at h
    split at h
    · cases h
    · rename_i renamed fault hrename
      rw [Variants.renamed, hrename]
      exact (Prod.mk.inj h).2.symm
  · cases h

namespace EditRequest

variable {request : EditRequest} {profiles : List Profile} {w w' : Workbench} {e : Error}

def variants? (request : EditRequest) (profiles : List Profile) (w : Workbench) :
    Option Variants :=
  match request.compile w.site w.freshIds profiles with
  | .error _ => none
  | .ok command =>
    match (w.useIds profiles.length).run command with
    | (.error _, _) => none
    | (.ok files, w') =>
      if command.adaptive then some ⟨w'.disk, files, command.segmentSuffixes⟩ else none

theorem exists_of_variants {v : Variants} (h : request.variants? profiles w = some v) :
    ∃ command w1, request.compile w.site w.freshIds profiles = .ok command ∧
      (w.useIds profiles.length).run command = (.ok v.files, w1) ∧ command.adaptive = true ∧
        v = ⟨w1.disk, v.files, command.segmentSuffixes⟩ := by
  unfold variants? at h
  split at h
  · cases h
  · rename_i command hcompiled
    split at h
    · cases h
    · rename_i files w1 hrun
      split at h
      · rename_i hadaptive
        cases h
        exact ⟨command, w1, hcompiled, hrun, hadaptive, rfl⟩
      · cases h

theorem exists_of_renamed {v : Variants} (hv : request.variants? profiles w = some v)
    (hfault : (renameSegments v.disk v.files v.suffixes).2.isSome = true) :
    ∃ e w', (request.run profiles).outcome w = (.error e, w') ∧
      w'.disk = removeFiles v.renamed.disk v.renamed.files ∧ ∀ p ∈ v.files, w.Recorded w' p := by
  obtain ⟨command, w1, hcompiled, hrun, hadaptive, hparts⟩ := exists_of_variants hv
  obtain ⟨fault, hfault⟩ := Option.isSome_iff_exists.1 hfault
  rw [hparts] at hfault
  refine ⟨.system fault, { w1 with disk := removeFiles v.renamed.disk v.renamed.files }, ?_, rfl, ?_⟩
  · unfold EditRequest.run
    rw [Work.outcome_bind, Work.outcome_compile, hcompiled]
    dsimp only
    rw [Work.outcome_bind, Work.outcome_runCommand, hrun]
    dsimp only
    rw [Work.outcome_bind, nameFiles, if_pos hadaptive, outcome_renameVariants, Variants.renamed,
      hparts]
    cases hrename : renameSegments w1.disk v.files command.segmentSuffixes with
    | mk renamed found =>
        rw [hrename] at hfault
        cases hfault
        rfl
  · intro p hp
    have hrecorded : (w.useIds profiles.length).Recorded w1 p := recorded_of_run hrun hp
    exact hrecorded

theorem variants_eq {files : List Path} {suffixes : List String}
    {writes : List (Path × ByteArray)}
    (hparts : (request.variants? profiles w).map (fun v => (v.files, v.suffixes)) =
      some (files, suffixes))
    (hwrites : ∀ k call, (w.encoders k call).writes = writes) :
    request.variants? profiles w = some ⟨writes.foldl writeIfPossible w.disk, files, suffixes⟩ := by
  obtain ⟨v, hv, hsame⟩ := Option.map_eq_some_iff.1 hparts
  obtain ⟨command, w1, _, hrun, _, hv'⟩ := exists_of_variants hv
  obtain ⟨_, _, hend⟩ := run_eq_ok hrun
  have hwritten : w1.disk = writes.foldl writeIfPossible w.disk := by
    rw [hend, disk_watch, nextRun]
    exact congrArg _ (hwrites _ _)
  cases hsame
  rw [hv, hv', hwritten]

theorem exists_isFile_of_order (files : List Path) (suffixes : List String) {indices : List Nat}
    {moved : Renaming × Option SystemFault} {p : Path}
    (hparts : (request.variants? profiles w).map (fun v => (v.files, v.suffixes)) =
      some (files, suffixes))
    (hwrites : ∀ k call, (w.encoders k call).writes = []) (horder : Renaming.order files = indices)
    (hmoved : ({ files, disk := w.disk } : Renaming).run (indices.zip suffixes) = moved)
    (hfault : moved.2.isSome = true) (hp : p ∈ files)
    (hfile : (removeFiles moved.1.disk moved.1.files).isFile p = true) :
    ∃ e w', (request.run profiles).outcome w = (.error e, w') ∧ w.Recorded w' p ∧
      w'.disk.isFile p = true := by
  have hrenamed : renameSegments w.disk files suffixes = moved := by
    rw [renameSegments, horder, hmoved]
  have hv := variants_eq hparts hwrites
  obtain ⟨e, w', hrun, hdisk, hrecorded⟩ := exists_of_renamed hv (hrenamed ▸ hfault)
  refine ⟨e, w', hrun, hrecorded p hp, ?_⟩
  have hend : w'.disk = removeFiles moved.1.disk moved.1.files := by
    rw [hdisk, ← hrenamed]
    rfl
  rw [hend]
  exact hfile

/-- An edit fails before anything is renamed, and then no file is left, or its
renaming fails, and then the files in its list go. -/
theorem cases_of_run_eq_error (hremove : w.Removable)
    (h : (request.run profiles).outcome w = (.error e, w')) :
    (request.variants? profiles w = none ∧ ∀ p, w.Recorded w' p → w'.disk.isFile p = false) ∨
      ∃ v, request.variants? profiles w = some v ∧ (∀ p, w.Recorded w' p → p ∈ v.files) ∧
        (∀ p, v.disk.refuses (.remove p) = none) ∧
          w'.disk = removeFiles v.renamed.disk v.renamed.files := by
  have hready : (w.useIds profiles.length).Removable := hremove
  -- the stages of an edit: compile, run, rename; assigning slots cannot fail
  rcases Work.cases_of_bind_eq_error h with hcompile | ⟨command, w1, hcompile, h⟩
  · obtain ⟨hfailed, rfl⟩ : request.compile w.site w.freshIds profiles = .error e ∧
        w.useIds profiles.length = w' := Prod.mk.inj hcompile
    left
    refine ⟨?_, fun p hp => absurd hp (not_recorded rfl)⟩
    rw [variants?, hfailed]
  obtain ⟨hcompiled, rfl⟩ : request.compile w.site w.freshIds profiles = .ok command ∧
      w.useIds profiles.length = w1 := Prod.mk.inj hcompile
  rcases Work.cases_of_bind_eq_error h with hrun | ⟨files, w2, hrun, h⟩
  · left
    have hgone := ((Tidy.runCommand command).error hready hrun).2
    rw [Work.outcome_runCommand] at hrun
    refine ⟨?_, fun p hp => hgone p (Or.inr hp)⟩
    rw [variants?, hcompiled]
    simp only [hrun]
  obtain ⟨hfollows, hmade⟩ := (Tidy.runCommand command).ok hready hrun
  rw [Work.outcome_runCommand] at hrun
  rcases Work.cases_of_bind_eq_error h with hname | ⟨_, _, _, hassign⟩
  · obtain ⟨hadaptive, v, hv, rfl⟩ := of_nameFiles_eq_error hname
    right
    refine ⟨v, ?_, ?_, ?_, rfl⟩
    · rw [variants?, hcompiled, hv]
      simp only [hrun, if_pos hadaptive]
    · intro p hp
      rw [hv]
      exact hmade p (Or.inr hp)
    · rw [hv]
      exact hfollows.removable hready
  · cases hassign

end EditRequest

namespace Operation

variable {op : Operation} {w w' : Workbench} {e : Error} {p : Path}

def variants? (w : Workbench) : Operation → Option Variants
  | edit request profiles => request.variants? profiles w
  | _ => none

/-- Where a file is that was announced: at its new path once it was renamed. -/
def currentPath (op : Operation) (w : Workbench) (p : Path) : Path :=
  match op.variants? w with
  | some v => v.currentPath p
  | none => p

theorem tidy_run (hop : ∀ request profiles, op ≠ .edit request profiles) :
    Tidy [] op.run fun slots => slots.filterMap id := by
  cases op with
  | process sources profile properties =>
      refine (Tidy.compile 1 _).bind fun command => (Tidy.runCommand command).bind fun files => ?_
      exact Tidy.pure fun p hp => by simpa using hp
  | make job profile properties =>
      refine (Tidy.compile 1 _).bind fun command => (Tidy.runSingle command).bind fun file => ?_
      exact Tidy.pure fun p hp => by simpa using hp
  | images source times profile properties =>
      refine (Tidy.makeImages source profile _ []).bind fun images => ?_
      exact Tidy.pure fun p hp => by simpa using hp
  | concat request profile properties =>
      refine Tidy.withCommand fun command _ => (Tidy.runSingle command).bind fun file => ?_
      exact Tidy.pure fun p hp => by simpa using hp
  | edit request profiles => exact absurd rfl (hop request profiles)

theorem variants?_eq_none (hop : ∀ request profiles, op ≠ .edit request profiles) :
    op.variants? w = none := by
  cases op with
  | edit request profiles => exact absurd rfl (hop request profiles)
  | _ => rfl

/-- An operation that fails leaves no file that an encoder run announced, neither
where the file is now nor, if the list keeps track of the segments, where it was before. -/
theorem not_isFile_of_run_eq_error (hremove : w.Removable)
    (h : op.run.outcome w = (.error e, w')) (hp : w.Recorded w' p) :
    w'.disk.isFile (op.currentPath w p) = false ∧
      ((∀ v ∈ op.variants? w, v.KeepsTrack) → w'.disk.isFile p = false) := by
  by_cases hedit : ∃ request profiles, op = .edit request profiles
  · obtain ⟨request, profiles, rfl⟩ := hedit
    rcases EditRequest.cases_of_run_eq_error hremove h with
      ⟨hnone, hgone⟩ | ⟨v, hsome, hmade, hremove', hdisk⟩
    · have hcurrent : (Operation.edit request profiles).currentPath w p = p := by
        simp only [currentPath, variants?, hnone]
      rw [hcurrent]
      exact ⟨hgone p hp, fun _ => hgone p hp⟩
    · have hcurrent : (Operation.edit request profiles).currentPath w p = v.currentPath p := by
        simp only [currentPath, variants?, hsome]
      rw [hcurrent, hdisk]
      refine ⟨v.not_isFile_currentPath hremove' (hmade p hp), ?_⟩
      intro htrack
      exact v.not_isFile_of_keepsTrack hremove' (htrack v hsome) (hmade p hp)
  · have hop : ∀ request profiles, op ≠ .edit request profiles :=
      fun request profiles heq => hedit ⟨request, profiles, heq⟩
    have hcurrent : op.currentPath w p = p := by
      rw [currentPath, variants?_eq_none hop]
    have hgone := ((tidy_run hop).error hremove h).2 p (Or.inr hp)
    rw [hcurrent]
    exact ⟨hgone, fun _ => hgone⟩

/-- A file is renamed, a link to another file takes its old name, and then the playlist is
missing. The list has the link under that name, so nothing is left there. -/
theorem not_isFile_of_missing_playlist :
    let delivery (suffix : String) : Profile :=
      { identifier := "p", name := "p", input := .audioVisual, output := .audioVisual
        suffix := some suffix
        extensions := Std.TreeMap.ofList [(Template.commandKey, "-crf 30 /x.mp4")] }
    let group : Profile :=
      { identifier := "hls", name := "hls", input := .audioVisual, output := .audioVisual
        extensions := Std.TreeMap.ofList
          [(Template.commandKey, "-f hls /m.m3u8"), (Profile.adaptiveKey, "HLS")] }
    let opened (path : String) : String := "[hls @ 0x1] Opening '" ++ path ++ "' for writing"
    let encoder : Encoder := fun _ =>
      { messages := [opened "/f.mp4", opened "/f.ts", opened "/m.m3u8"]
        writes := [(⟨"/f.mp4"⟩, .empty)] }
    let nodes : List (Route × Node) :=
      [(["f.ts"], .link ⟨"kept.ts"⟩), (["kept.ts"], .file .empty)]
    let w : Workbench :=
      { ids := fun _ => "id", marks := [], disk := { nodes := Std.TreeMap.ofList nodes }
        encoders := fun _ => encoder }
    let op := Operation.multiEncode ⟨"/in/a.mp4"⟩ [delivery "-low.mp4", delivery ".mp4", group]
    ∃ e w', op.run.outcome w = (.error e, w') ∧ w.Recorded w' ⟨"/f.mp4"⟩ ∧
      op.currentPath w ⟨"/f.mp4"⟩ = ⟨"/f-low.mp4"⟩ ∧ w'.disk.isFile ⟨"/f-low.mp4"⟩ = false ∧
        w'.disk.isFile ⟨"/f.mp4"⟩ = false := by
  intro delivery group opened encoder nodes w op
  let request : EditRequest := { inputs := [⟨"/in/a.mp4"⟩] }
  let files : List Path := [⟨"/f.mp4"⟩, ⟨"/f.ts"⟩, ⟨"/m.m3u8"⟩]
  let suffixes := ["-low.mp4", ".mp4"]
  let written : Disk := [(⟨"/f.mp4"⟩, .empty)].foldl writeIfPossible w.disk
  let moved := ({ files, disk := written } : Renaming).run ([0, 1].zip suffixes)
  have hparts : (request.variants? [delivery "-low.mp4", delivery ".mp4", group] w).map
      (fun v => (v.files, v.suffixes)) = some (files, suffixes) := by decide +kernel
  have hv := EditRequest.variants_eq hparts fun _ _ => rfl
  have hop : op.variants? w = some ⟨written, files, suffixes⟩ := hv
  have horder : Renaming.order files = [0, 1] :=
    Renaming.order_eq (by decide +kernel) (by decide +kernel)
  have hrenamed : renameSegments written files suffixes = moved := by
    rw [renameSegments, horder]
  obtain ⟨e, w', hrun, _, hrecorded⟩ := EditRequest.exists_of_renamed hv
    (by rw [hrenamed]; decide +kernel)
  have hannounced := hrecorded ⟨"/f.mp4"⟩ List.mem_cons_self
  have hcurrent : op.currentPath w ⟨"/f.mp4"⟩ = ⟨"/f-low.mp4"⟩ := by
    rw [currentPath, hop]
    simp only [Variants.currentPath, Variants.renamed, hrenamed]
    decide +kernel
  have htrack : (⟨written, files, suffixes⟩ : Variants).KeepsTrack := by
    constructor
    · rw [horder]
      have hfirst : files[0]? = some ⟨"/f.mp4"⟩ := rfl
      refine stepsSparePaths_cons hfirst
        (sparesPaths_of_isFile (by decide +kernel) (by decide +kernel)) ?_
      let first := (({ files, disk := written } : Renaming).step 0 "-low.mp4").1
      have hsecond : first.files[1]? = some ⟨"/f.ts"⟩ := by decide +kernel
      exact stepsSparePaths_cons hsecond
        (sparesPaths_of_isFile (by decide +kernel) (by decide +kernel)) trivial
    · rw [Variants.renamed, hrenamed]
      have hfound : ∀ q ∈ moved.1.files, (moved.1.disk.locate true q).toOption.isSome = true := by
        decide +kernel
      exact fun q hq => Disk.not_isTooDeep (hfound q hq)
  have hfailed : op.run.outcome w = (.error e, w') := hrun
  obtain ⟨hnew, hold⟩ := not_isFile_of_run_eq_error (fun _ => rfl) hfailed hannounced
  rw [hcurrent] at hnew
  refine ⟨e, w', hrun, hannounced, hcurrent, hnew, hold ?_⟩
  rw [hop]
  rintro _ ⟨⟩
  exact htrack

/-- Three segments, of which the second one takes the old name of the first one.
The third one is a directory, or a link to one, through which the new path of the
second one leads, or it takes the place of such a link. So that path leads nowhere
in the end, and the file at the first path is left. -/
theorem isFile_of_moved_directory :
    let delivery (suffix : String) : Profile :=
      { identifier := "p", name := "p", input := .audioVisual, output := .audioVisual
        suffix := some suffix
        extensions := Std.TreeMap.ofList [(Template.commandKey, "-crf 30 /x.mp4")] }
    let group : Profile :=
      { identifier := "hls", name := "hls", input := .audioVisual, output := .audioVisual
        extensions := Std.TreeMap.ofList
          [(Template.commandKey, "-f hls /m.m3u8"), (Profile.adaptiveKey, "HLS")] }
    let opened (path : String) : String := "[hls @ 0x1] Opening '" ++ path ++ "' for writing"
    let bench (second third : String) (nodes : List (Route × Node)) : Workbench :=
      let others : List (Route × Node) :=
        [(["f.mp4"], .file .empty), (["f.ts"], .file .empty), (["y"], .directory)]
      { ids := fun _ => "id", marks := []
        disk := { nodes := Std.TreeMap.ofList (nodes ++ others) }
        encoders := fun _ _ =>
          { messages := [opened "/f.mp4", opened second, opened third, opened "/m.m3u8"] } }
    let op := Operation.multiEncode ⟨"/in/a.mp4"⟩
      [delivery "-low.mp4", delivery ".mp4", delivery "-x", group]
    ∀ w ∈ [bench "/z/../f.ts" "/z" [(["z"], .directory)],
        bench "/z/../f.ts" "/z" [(["z"], .link ⟨"y"⟩)],
        bench "/z-x/../f.ts" "/z.mp4" [(["z.mp4"], .file .empty), (["z-x"], .link ⟨"y"⟩)]],
      w.Removable ∧ ∃ e w', op.run.outcome w = (.error e, w') ∧ w.Recorded w' ⟨"/f.mp4"⟩ ∧
        w'.disk.isFile ⟨"/f.mp4"⟩ = true := by
  intro delivery group opened bench op
  let request : EditRequest := { inputs := [⟨"/in/a.mp4"⟩] }
  let profiles := [delivery "-low.mp4", delivery ".mp4", delivery "-x", group]
  let files (second third : String) : List Path := [⟨"/f.mp4"⟩, ⟨second⟩, ⟨third⟩, ⟨"/m.m3u8"⟩]
  let suffixes := ["-low.mp4", ".mp4", "-x"]
  have hrun : ∀ w, op.run.outcome w = (request.run profiles).outcome w := fun _ => rfl
  have hremove : ∀ second third nodes, (bench second third nodes).Removable := fun _ _ _ _ => rfl
  intro w hw
  simp only [List.mem_cons, List.not_mem_nil, or_false] at hw
  rcases hw with rfl | rfl | rfl
  · have horder : Renaming.order (files "/z/../f.ts" "/z") = [0, 1, 2] :=
      Renaming.order_eq (by decide +kernel) (by decide +kernel)
    refine ⟨hremove _ _ _, ?_⟩
    rw [hrun]
    exact EditRequest.exists_isFile_of_order _ suffixes (by decide +kernel) (fun _ _ => rfl) horder
      rfl (by decide +kernel) List.mem_cons_self (by decide +kernel)
  · have horder : Renaming.order (files "/z/../f.ts" "/z") = [0, 1, 2] :=
      Renaming.order_eq (by decide +kernel) (by decide +kernel)
    refine ⟨hremove _ _ _, ?_⟩
    rw [hrun]
    exact EditRequest.exists_isFile_of_order _ suffixes (by decide +kernel) (fun _ _ => rfl) horder
      rfl (by decide +kernel) List.mem_cons_self (by decide +kernel)
  · have horder : Renaming.order (files "/z-x/../f.ts" "/z.mp4") = [0, 1, 2] :=
      Renaming.order_eq (by decide +kernel) (by decide +kernel)
    refine ⟨hremove _ _ _, ?_⟩
    rw [hrun]
    exact EditRequest.exists_isFile_of_order _ suffixes (by decide +kernel) (fun _ _ => rfl) horder
      rfl (by decide +kernel) List.mem_cons_self (by decide +kernel)

end Operation

end Montage
