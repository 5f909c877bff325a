import Montage.Proofs.CommandText
import Montage.Proofs.Disk.Lasting
import Montage.Proofs.Disk.Temporary
import Montage.Proofs.Engine.DryRun
import Montage.Proofs.LastName

/-!
# How long a list of tracks lives

A list of tracks is made in front of a job and removed behind it. So while the job
runs its encoder the list is on the disk, `TrackList.IsListed`, and whatever ends
the job, nothing is left at its place. An encoder may write to the list as to any
other file, which is all that can change its text.

The encoder is told the path of the list by a fragment of its command line. What
the fragment names is the list exactly if the path is quotable and has no
placeholder, `TrackList.isNamed_iff`.
-/

namespace Montage

open Workbench Disk

namespace TrackList

def path (w : Workbench) (mark : String) : Path :=
  (w.disk.rooted w.settings.temporary).join ⟨temporaryName "tracklist" "txt" mark⟩

/-- The workbench `v` is `w` with a list of the inputs, where nothing was, and with
directories for it. -/
structure IsListed (w : Workbench) (inputs : List ConcatInput) (list : Path) (R : Route)
    (v : Workbench) : Prop where
  place : ∃ mark ∈ w.marks, list = path w mark
  entry : EndsAt v.disk list R
  fresh : w.disk.node? R = none
  text : v.disk.node? R = some (.file (Concat.fileList inputs).toUTF8)
  others : Furnished w.disk (v.disk.drop R)
  refuses : v.disk.refuses = w.disk.refuses
  rest : v = { w with disk := v.disk }

def Removable (w : Workbench) : Prop :=
  ∀ mark ∈ w.marks, w.disk.refuses (.remove (path w mark)) = none

variable {inputs : List ConcatInput} {w v : Workbench} {list : Path} {R : Route}

theorem IsListed.calls_eq (h : IsListed w inputs list R v) : v.calls = w.calls := by
  have hcalls := congrArg Workbench.calls h.rest
  exact hcalls

theorem IsListed.removable (h : IsListed w inputs list R v) (hremove : Removable w) :
    v.disk.refuses (.remove list) = none := by
  obtain ⟨mark, hmark, rfl⟩ := h.place
  rw [h.refuses]
  exact hremove mark hmark

theorem IsListed.reserved (h : IsListed w inputs list R v) : Reserved v.disk list R := by
  refine ⟨h.entry, fun node hnode => ?_⟩
  rw [h.text] at hnode
  exact ⟨_, (Option.some.inj hnode).symm⟩

theorem IsListed.removeFile_eq (h : IsListed w inputs list R v) (hremove : Removable w) :
    removeFile v.disk list = v.disk.drop R :=
  removeFile_of_endsAt (h.removable hremove) h.entry h.text

/-- While files are written the list stays, with its text unless one of the writes goes to it. -/
theorem IsListed.exists_bytes (h : IsListed w inputs list R v)
    (writes : List (Path × ByteArray)) :
    ∃ bytes, (writes.foldl writeIfPossible v.disk).find? list = some (.file bytes) ∧
      (bytes = (Concat.fileList inputs).toUTF8 ∨ Rewrites list v.disk writes) := by
  obtain ⟨hend, bytes, hbytes, hsame⟩ := exists_bytes_of_writes h.entry h.text writes
  exact ⟨bytes, find?_of_endsAt hend hbytes, hsame⟩

theorem outcome_create_eq (inputs : List ConcatInput) (w : Workbench) :
    (create inputs).outcome w =
      match w.disk.createTemporary w.settings.temporary "tracklist" "txt" w.marks with
      | .error fault => (.error (.system fault), w)
      | .ok (list, d) =>
        match d.write list (Concat.fileList inputs).toUTF8 with
        | .ok d => (.ok list, { w with disk := d })
        | .error fault => (.error (.system fault), { w with disk := removeFile d list }) := by
  unfold create
  rw [Work.outcome_get_bind]
  cases w.disk.createTemporary w.settings.temporary "tracklist" "txt" w.marks with
  | error fault => rfl
  | ok made =>
    obtain ⟨list, d⟩ := made
    dsimp only
    rw [Work.outcome_set_bind]
    cases d.write list (Concat.fileList inputs).toUTF8 <;> rfl

theorem exists_isListed (h : (create inputs).outcome w = (.ok list, v)) :
    ∃ R, IsListed w inputs list R v := by
  rw [outcome_create_eq] at h
  split at h
  · cases h
  rename_i made d hcreate
  obtain ⟨R, hplace, hend, hfresh, hempty, hothers⟩ := exists_of_createTemporary hcreate
  split at h
  · rename_i written hwrite
    have hrefuses := (refuses_write hwrite).trans (refuses_createTemporary hcreate)
    obtain rfl := eq_put_of_write hend hempty hwrite
    cases h
    exact
      ⟨R,
        { place := hplace
          entry := hend.of_guides (alike_put id (by simp [hempty, Node.Guides])).forth
          fresh := hfresh
          text := by rw [node?_put, if_pos ⟨hend.ne_nil, rfl⟩]
          others := hothers.drop_put _
          refuses := hrefuses
          rest := rfl }⟩
  · cases h

theorem furnished_of_create_eq_error {e : Error} (hremove : Removable w)
    (h : (create inputs).outcome w = (.error e, v)) :
    ∃ d, Furnished w.disk d ∧ v = { w with disk := d } := by
  rw [outcome_create_eq] at h
  split at h
  · cases h
    exact ⟨w.disk, Furnished.refl w.disk, rfl⟩
  rename_i made d hcreate
  obtain ⟨R, hplace, hend, _, hempty, hothers⟩ := exists_of_createTemporary hcreate
  split at h
  · cases h
  · cases h
    have hgone : d.refuses (.remove made) = none := by
      obtain ⟨mark, hmark, rfl⟩ := hplace
      rw [refuses_createTemporary hcreate]
      exact hremove mark hmark
    refine ⟨removeFile d made, ?_, rfl⟩
    rw [removeFile_of_endsAt hgone hend hempty]
    exact hothers

/-! ## What the encoder is told -/

/-- Among the arguments that the fragment brings to a command the list is named, whatever the
parameters are. -/
def IsNamed (list : Path) (fragment : String) : Prop :=
  ∀ params, (Words.ofLine? fragment).map (Template.arguments params) =
    some ["-f", "concat", "-safe", "0", "-i", list.text]

theorem not_isBlankText_path (w : Workbench) (mark : String) :
    Text.isBlankText (path w mark).text = false := by
  obtain ⟨front, hfront⟩ := Path.exists_text_join (w.disk.rooted w.settings.temporary)
    ⟨temporaryName "tracklist" "txt" mark⟩
  have hmem : 't' ∈ (path w mark).text.toList := by
    rw [path, hfront]
    simp [temporaryName]
  exact Text.not_isBlankText_of_mem hmem (by decide)

theorem arguments_fragment (list : Path) (params : Parameters) :
    (Words.ofLine? ("-f concat -safe 0 -i " ++ list.quoted)).map (Template.arguments params) =
      (Words.ofLine? list.quoted).map fun words =>
        ["-f", "concat", "-safe", "0", "-i"] ++ Template.arguments params words := by
  have hfront :
      Words.ofLine? "-f concat -safe 0 -i" = some ["-f", "concat", "-safe", "0", "-i"] := by
    decide
  have hline : "-f concat -safe 0 -i " ++ list.quoted =
      "-f concat -safe 0 -i" ++ " " ++ list.quoted := rfl
  have hsame : Template.arguments params ["-f", "concat", "-safe", "0", "-i"] =
      ["-f", "concat", "-safe", "0", "-i"] := Template.arguments_of_isInert (by decide) params
  rw [hline, Words.ofLine?_append hfront, Option.map_map]
  congr 1
  funext words
  simp only [Function.comp, Template.arguments_append, hsame]

/-- The fragment names the list exactly if its path is quotable and has no placeholder. -/
theorem isNamed_iff (hblank : Text.isBlankText list.text = false) :
    IsNamed list ("-f concat -safe 0 -i " ++ list.quoted) ↔
      list.IsQuotable ∧ Template.IsLiteral list.text := by
  have hne := Text.ne_empty_of_not_isBlankText hblank
  unfold IsNamed
  simp only [arguments_fragment]
  constructor
  · intro h
    have hquotable : list.IsQuotable := by
      -- without values the arguments are too short, unless the path is read as it is
      by_contra hnot
      obtain ⟨words, hwords, harguments⟩ := Option.map_eq_some_iff.1 (h ∅)
      have hlast : Template.arguments ∅ words = [list.text] := List.append_cancel_left harguments
      have hle := Template.length_arguments_empty_le words
      rw [hlast, Words.flatMap_toList_of_ofLine? hwords] at hle
      have hlt := Path.length_kept_quoted_lt hnot
      simp at hle hlt
      omega
    refine ⟨hquotable, Template.isLiteral_iff.2 fun params => ?_⟩
    have hone := h params
    rw [hquotable.ofLine? hne] at hone
    have hlast : Template.arguments params [list.text] = [list.text] :=
      List.append_cancel_left (Option.some.inj hone)
    have hmem : list.text ∈ Template.arguments params [list.text] := by rw [hlast]; simp
    obtain ⟨word, hword, hsubstitute⟩ := List.mem_map.1 (List.mem_filter.1 hmem).1
    rw [List.mem_singleton.1 hword] at hsubstitute
    exact hsubstitute
  · rintro ⟨hquotable, hliteral⟩ params
    rw [hquotable.ofLine? hne, Option.map_some,
      Template.arguments_cons (Template.substitute_of_isLiteral hliteral params) hblank]
    rfl

end TrackList

/-! ## The job -/

namespace Workbench

variable {w : Workbench} {command : Command} {p : Path} {R : Route}

theorem exists_disk_runSingle (w : Workbench) (command : Command) :
    ∃ (writes : List (Path × ByteArray)) (files : List Path),
      ((Work.runSingle command).outcome w).2.disk =
        removeFiles (writes.foldl writeIfPossible w.disk) files := by
  unfold Work.runSingle
  rw [Work.outcome_bind, Work.outcome_runCommand]
  cases hrun : w.run command with
  | mk result w1 =>
    cases result with
    | error e =>
      rcases run_eq_error hrun with ⟨_, rfl⟩ | ⟨_, rfl⟩
      · exact ⟨[], [], rfl⟩
      · exact ⟨_, _, congrArg (removeFiles · _) (disk_watch _ _)⟩
    | ok files =>
      obtain ⟨_, _, rfl⟩ := run_eq_ok hrun
      have hwatched := disk_watch (w.called command) (w.nextRun command)
      dsimp only
      unfold Work.single
      split
      · exact ⟨_, [], hwatched⟩
      · exact ⟨_, files, congrArg (removeFiles · files) hwatched⟩

theorem refuses_runSingle (w : Workbench) (command : Command) :
    ((Work.runSingle command).outcome w).2.disk.refuses = w.disk.refuses := by
  obtain ⟨writes, files, hdisk⟩ := exists_disk_runSingle w command
  rw [hdisk, refuses_removeFiles, refuses_writes]

theorem Reserved.runSingle (h : Reserved w.disk p R) (command : Command) :
    Reserved ((Work.runSingle command).outcome w).2.disk p R := by
  obtain ⟨writes, files, hdisk⟩ := exists_disk_runSingle w command
  rw [hdisk]
  exact (h.writes writes).removeFiles files

end Workbench

theorem TrackList.IsListed.find?_removed {inputs : List ConcatInput} {w v : Workbench} {list : Path}
    {R : Route} (h : IsListed w inputs list R v) (hremove : Removable w) (count : Nat)
    (command : Command) :
    (removeFile ((Work.runSingle command).outcome (v.useIds count)).2.disk list).find? list =
      none := by
  apply Reserved.find?_removeFile (Reserved.runSingle (w := v.useIds count) h.reserved command)
  rw [refuses_runSingle]
  exact h.removable hremove

namespace ConcatRequest

variable {request : ConcatRequest} {w : Workbench}

theorem outcome_prepareList_eq (hcodec : request.sameCodec = true) (w : Workbench) :
    request.prepareList.outcome w =
      match Concat.validate request.inputs with
      | .error e => (.error e, w)
      | .ok () =>
        match (TrackList.create request.inputs).outcome w with
        | (.error e, v) => (.error e, v)
        | (.ok list, v) => (.ok (some list), v) := by
  unfold prepareList
  rw [hcodec]
  cases Concat.validate request.inputs with
  | error e => rfl
  | ok checked =>
    show ((TrackList.create request.inputs >>= fun list => pure (some list)) : Work _).outcome w = _
    rw [Work.outcome_bind]
    cases (TrackList.create request.inputs).outcome w with
    | mk result v => cases result <;> rfl

theorem isListed_of_prepareList {list : Path} {v : Workbench} (hcodec : request.sameCodec = true)
    (h : request.prepareList.outcome w = (.ok (some list), v)) :
    ∃ R, TrackList.IsListed w request.inputs list R v := by
  rw [outcome_prepareList_eq hcodec] at h
  split at h
  · cases h
  · split at h
    · cases h
    · rename_i hcreate
      cases h
      exact TrackList.exists_isListed hcreate

theorem outcome_prepareList_cases (hcodec : request.sameCodec = true)
    (hremove : TrackList.Removable w) :
    (∃ e d, Furnished w.disk d ∧
        request.prepareList.outcome w = (.error e, { w with disk := d })) ∨
      ∃ list R v, TrackList.IsListed w request.inputs list R v ∧
        request.prepareList.outcome w = (.ok (some list), v) := by
  rw [outcome_prepareList_eq hcodec]
  cases Concat.validate request.inputs with
  | error e => exact Or.inl ⟨e, w.disk, Furnished.refl w.disk, rfl⟩
  | ok checked =>
    dsimp only
    cases hcreate : (TrackList.create request.inputs).outcome w with
    | mk result v =>
      cases result with
      | error e =>
        obtain ⟨d, hfurnished, rfl⟩ := TrackList.furnished_of_create_eq_error hremove hcreate
        exact Or.inl ⟨e, d, hfurnished, rfl⟩
      | ok list =>
        obtain ⟨R, hlisted⟩ := TrackList.exists_isListed hcreate
        exact Or.inr ⟨list, R, v, hlisted, rfl⟩

theorem outcome_during_list (request : ConcatRequest) (p : Profile) (properties : Parameters)
    (list : Path) (v : Workbench) :
    (TrackList.during (some list) do
      let command ← Work.compile 1 fun site ids =>
        request.compile site (ids 0) (some list) p properties
      return [some (← Work.runSingle command)]).outcome v =
      match request.compile v.site (v.freshIds 0) (some list) p properties with
      | .error e => (.error e, { v.useIds 1 with disk := removeFile v.disk list })
      | .ok command =>
        let ran := (Work.runSingle command).outcome (v.useIds 1)
        (ran.1.map fun file => [some file],
          { ran.2 with disk := removeFile ran.2.disk list }) := by
  rw [Tidy.outcome_during, Work.outcome_bind, Work.outcome_compile]
  cases request.compile v.site (v.freshIds 0) (some list) p properties with
  | error e => rfl
  | ok command =>
    dsimp only
    rw [Work.outcome_bind]
    cases (Work.runSingle command).outcome (v.useIds 1) with
    | mk result w1 => cases result <;> rfl

/-- A concatenation of inputs with equal codecs fails before it calls an encoder, and then it
leaves nothing but directories. Or the list is on the disk while the one command runs, with
its text unless the encoder writes to it, and nothing is left of it when the concatenation
returns, whatever the result is. The encoder is told of the list by a fragment that names it
exactly if the path is quotable and has no placeholder. -/
theorem list_lives_while_running (request : ConcatRequest) (p : Profile) (properties : Parameters)
    (w : Workbench) (hcodec : request.sameCodec = true) (hremove : TrackList.Removable w) :
    let done := (Operation.concat request p properties).run.outcome w
    ((∃ e, done.1 = .error e) ∧ done.2.calls = w.calls ∧ Furnished w.disk done.2.disk) ∨
      ∃ list R v command, TrackList.IsListed w request.inputs list R v ∧
        request.compile v.site (v.freshIds 0) (some list) p properties = .ok command ∧
        (∀ before, before <+: ((v.useIds 1).nextRun command).writes →
          ∃ bytes, (before.foldl writeIfPossible v.disk).find? list = some (.file bytes) ∧
            (bytes = (Concat.fileList request.inputs).toUTF8 ∨ Rewrites list v.disk before)) ∧
        (let ran := (Work.runSingle command).outcome (v.useIds 1)
         done = (ran.1.map fun file => [some file],
           { ran.2 with disk := removeFile ran.2.disk list })) ∧
        done.2.calls = w.calls ++ [command.call] ∧ done.2.disk.find? list = none ∧
        ∃ fragment, request.fragment (some list) = .ok fragment ∧
          (TrackList.IsNamed list fragment ↔ list.IsQuotable ∧ Template.IsLiteral list.text) := by
  intro done
  have hdone : done = (request.withCommand p properties fun command _ => do
      return [some (← Work.runSingle command)]).outcome w := rfl
  unfold withCommand at hdone
  rw [Work.outcome_bind] at hdone
  rcases outcome_prepareList_cases hcodec hremove with
    ⟨e, d, hfurnished, hprepared⟩ | ⟨list, R, v, hlisted, hprepared⟩
  · rw [hprepared] at hdone
    rw [hdone]
    exact Or.inl ⟨⟨e, rfl⟩, rfl, hfurnished⟩
  rw [hprepared] at hdone
  dsimp only at hdone
  rw [outcome_during_list] at hdone
  cases hcompile : request.compile v.site (v.freshIds 0) (some list) p properties with
  | error e =>
    rw [hcompile] at hdone
    rw [hdone]
    refine Or.inl ⟨⟨e, rfl⟩, hlisted.calls_eq, ?_⟩
    rw [hlisted.removeFile_eq hremove]
    exact hlisted.others
  | ok command =>
    rw [hcompile] at hdone
    dsimp only at hdone
    refine Or.inr ⟨list, R, v, command, hlisted, hcompile,
      fun before _ => hlisted.exists_bytes before, hdone, ?_, ?_, _, rfl, ?_⟩
    · rw [hdone]
      show ((Work.runSingle command).outcome (v.useIds 1)).2.calls = _
      rw [(ran_runSingle (v.useIds 1) command).calls]
      exact congrArg (· ++ [command.call]) hlisted.calls_eq
    · rw [hdone]
      exact hlisted.find?_removed hremove 1 command
    · obtain ⟨mark, _, rfl⟩ := hlisted.place
      exact TrackList.isNamed_iff (TrackList.not_isBlankText_path w mark)

/-- The encoder writes a file and fails, with the list in a directory that has a blank in its
name. -/
theorem list_lives_while_failing :
    let request : ConcatRequest :=
      { inputs := [⟨⟨"/in/a.mp4"⟩, true, true⟩, ⟨⟨"/in/b.mp4"⟩, true, true⟩], sameCodec := true }
    let p : Profile :=
      { identifier := "concat", name := "p", input := .audioVisual, output := .audioVisual
        extensions := Std.TreeMap.ofList [(Template.commandKey,
          "#\x7bconcatCommand\x7d -c copy #\x7bout.dir\x7d/x.mp4")] }
    let w : Workbench :=
      { settings := { outputDirectory := some ⟨"/out"⟩, temporaryDirectory := some ⟨"/my lists"⟩ }
        ids := fun _ => "id", marks := ["x"]
        encoders := fun _ _ => { writes := [(⟨"/x.mp4"⟩, .empty)], status := .exited 1 } }
    let list : Path := ⟨"/my lists/tracklist_x.txt"⟩
    let done := (Operation.concat request p ∅).run.outcome w
    request.sameCodec = true ∧ TrackList.Removable w ∧ done.1.toOption = none ∧
      ∃ (R : Route) (v : Workbench) (command : Command),
        TrackList.IsListed w request.inputs list R v ∧ done.2.calls = [command.call] ∧
        done.2.disk.find? list = none ∧
        TrackList.IsNamed list ("-f concat -safe 0 -i " ++ list.quoted) := by
  intro request p w list done
  have hremove : TrackList.Removable w := fun _ _ => rfl
  have hcalled : done.2.calls.length = 1 := by decide +kernel
  have hfailed : done.1.toOption = none := by decide +kernel
  refine ⟨rfl, hremove, hfailed, ?_⟩
  rcases list_lives_while_running request p ∅ w rfl hremove with
    ⟨_, hcalls, _⟩ |
    ⟨found, R, v, command, hlisted, _, _, _, hcalls, hgone, fragment, hfragment, hnamed⟩
  · rw [hcalls] at hcalled
    cases hcalled
  · obtain ⟨mark, hmark, hplace⟩ := hlisted.place
    obtain rfl := List.mem_singleton.1 hmark
    have hfound : found = list := by
      rw [hplace]
      decide +kernel
    subst hfound
    cases hfragment
    exact ⟨R, v, command, hlisted, hcalls, hgone, hnamed.2 (by decide +kernel)⟩

/-- Double quotes in the directory get lost, and no file is where the encoder is told to look. -/
theorem list_misnamed :
    let request : ConcatRequest :=
      { inputs := [⟨⟨"/in/a.mp4"⟩, true, true⟩, ⟨⟨"/in/b.mp4"⟩, true, true⟩], sameCodec := true }
    let p : Profile :=
      { identifier := "concat", name := "p", input := .audioVisual, output := .audioVisual
        extensions := Std.TreeMap.ofList [(Template.commandKey,
          "#\x7bconcatCommand\x7d -c copy #\x7bout.dir\x7d/x.mp4")] }
    let w : Workbench :=
      { settings := { outputDirectory := some ⟨"/out"⟩, temporaryDirectory := some ⟨"/a\"b\"c"⟩ }
        ids := fun _ => "id", marks := ["x"] }
    let made := (TrackList.create request.inputs).outcome w
    made.1.toOption = some ⟨"/a\"b\"c/tracklist_x.txt"⟩ ∧
      (((Operation.concat request p ∅).run.outcome w).2.calls.map (·.arguments) =
        [["-loglevel", "level+info", "-nostdin", "-nostats", "-f", "concat", "-safe", "0", "-i",
          "/abc/tracklist_x.txt", "-c", "copy", "/out/x.mp4"]]) ∧
      made.2.disk.holds ⟨"/a\"b\"c/tracklist_x.txt"⟩ = true ∧
      made.2.disk.holds ⟨"/abc/tracklist_x.txt"⟩ = false := by
  decide +kernel

end ConcatRequest

end Montage
