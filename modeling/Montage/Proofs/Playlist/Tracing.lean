import Montage.Proofs.Disk.LinkLimit
import Montage.Proofs.Playlist.Renaming

/-!
# Finding again what was moved

A renaming that stops half way leaves some segments under their old and some under their new
names, and its list is all there is to find them. The new name of one segment may be the old
name of another one, so a file at an old path is not found by that path but by whichever path
of the list has the same entry (`Traced`).

A step keeps this if it leaves alone where other paths end, `SparesPaths`: no path leads on
through the segment, that is, it is neither a directory nor a link to one, and neither is a
link at its goal. Then all steps keep it (`traced_steps`), and removing the files of the list
leaves none of the files that were given (`Traced.not_isFile`). For a link at an entry this
takes a path that is not `IsTooDeep`, since only what leads to a file is removed.
-/

namespace Montage.Playlist

open Disk Renaming

/-- No path leads on through the segment, nor through a link that stands at its goal. -/
structure SparesPaths (d : Disk) (segment goal : Path) : Prop where
  segment : ∀ e, d.locate false segment = .ok e → IsLast d e.route
  goal : Replaceable d goal

def StepsSparePaths (r : Renaming) : List (Nat × String) → Prop
  | [] => True
  | (index, suffix) :: moves =>
    (∀ segment ∈ r.files[index]?, (target segment suffix).same segment = false →
      SparesPaths r.disk segment (target segment suffix)) ∧
      ((r.step index suffix).2 = none → StepsSparePaths (r.step index suffix).1 moves)

/-- A path is in the list, or its entry is empty or that of a path in the list. -/
inductive Traced (r : Renaming) (p : Path) : Prop where
  | listed (mem : p ∈ r.files)
  | empty (S : Route) (entry : EndsAt r.disk p S) (gone : r.disk.node? S = none)
  | shared (q : Path) (mem : q ∈ r.files) (S : Route) (entry : EndsAt r.disk p S)
      (other : EndsAt r.disk q S)

theorem sparesPaths_of_isFile {d : Disk} {segment goal : Path} (hfile : d.isFile segment = true)
    (hgoal : ∀ node ∈ d.nodeAt? goal, ¬ node.IsLink) : SparesPaths d segment goal where
  segment := by
    intro e hlocate
    obtain ⟨_, ⟨e', hlocate', rfl, _⟩, hlast, _⟩ := exists_endsAt_of_isFile hfile
    cases hlocate.symm.trans hlocate'
    exact hlast
  goal := replaceable_of_not_isLink hgoal

variable {r : Renaming} {p : Path} {d : Disk}

theorem stepsSparePaths_cons {moves : List (Nat × String)} {index : Nat} {suffix : String}
    {segment : Path} (hindex : r.files[index]? = some segment)
    (hspares : SparesPaths r.disk segment (target segment suffix))
    (hrest : StepsSparePaths (r.step index suffix).1 moves) :
    StepsSparePaths r ((index, suffix) :: moves) := by
  refine ⟨fun other hother _ => ?_, fun _ => hrest⟩
  cases hindex.symm.trans hother
  exact hspares

theorem SparesPaths.of_sameEntries {segment goal : Path} (hdisks : SameEntries r.disk d)
    (h : SparesPaths r.disk segment goal) : SparesPaths d segment goal where
  segment := fun e hlocate =>
    (h.segment e (locate_of_guides hdisks.back hlocate)).of_guides hdisks.back
  goal := h.goal.of_sameEntries hdisks

theorem Traced.of_disk (h : Traced r p) (hends : ∀ q S, EndsAt r.disk q S → EndsAt d q S)
    (hgone : ∀ S, r.disk.node? S = none → d.node? S = none) : Traced { r with disk := d } p := by
  cases h with
  | listed mem => exact .listed mem
  | empty S entry gone => exact .empty S (hends p S entry) (hgone S gone)
  | shared q mem S entry other => exact .shared q mem S (hends p S entry) (hends q S other)

theorem Traced.of_clear {goal : Path} (h : Traced r p) (hgoal : Replaceable r.disk goal)
    (hclear : clear r.disk goal = .ok d) : Traced { r with disk := d } p := by
  obtain ⟨hsame, hnodes⟩ := sameEntries_of_clear hgoal hclear
  refine h.of_disk hsame.forth fun S hgone => ?_
  rcases hnodes S with heq | ⟨_, hnone⟩
  · rw [heq, hgone]
  · exact hnone

/-- What is moved leaves an empty entry, and is found at its goal. -/
theorem Traced.of_rename {index : Nat} {segment goal : Path} (h : Traced r p)
    (hindex : r.files[index]? = some segment) (hspares : SparesPaths r.disk segment goal)
    (hrename : r.disk.rename segment goal = .ok d) (names : NewNames) :
    Traced { files := r.files.set index goal, names, disk := d } p := by
  obtain ⟨S, T, node, hS, hT, rfl, hends⟩ :=
    exists_of_rename_isLast hrename hspares.segment hspares.goal
  have hgoal : goal ∈ r.files.set index goal :=
    List.mem_set (List.getElem?_eq_some_iff.1 hindex).1 goal
  -- an entry that the segment leaves or that was empty is the goal's or empty
  have hleft {R : Route} (hR : EndsAt r.disk p R) (hgone : R = S ∨ r.disk.node? R = none) :
      Traced { files := r.files.set index goal, names, disk := (r.disk.drop S).put T node } p := by
    by_cases hRT : R = T
    · exact .shared goal hgoal R (hends p R hR) (hRT ▸ hends goal T hT)
    · refine .empty R (hends p R hR) ?_
      rw [node?_put, if_neg fun hsame => hRT hsame.2, node?_drop]
      split
      · rfl
      · rename_i hRS
        exact hgone.resolve_left fun heq => hRS ⟨hR.ne_nil, heq⟩
  cases h with
  | listed mem =>
    by_cases hsame : p = segment
    · subst hsame
      exact hleft hS (Or.inl rfl)
    · exact .listed (mem_set_of_ne hindex mem hsame)
  | empty R entry gone => exact hleft entry (Or.inr gone)
  | shared q mem R entry other =>
    by_cases hsame : q = segment
    · subst hsame
      exact hleft entry (Or.inl (other.unique hS))
    · exact .shared q (mem_set_of_ne hindex mem hsame) R (hends p R entry) (hends q R other)

theorem traced_step {index : Nat} {suffix : String} (h : Traced r p)
    (hspares : ∀ segment ∈ r.files[index]?, (target segment suffix).same segment = false →
      SparesPaths r.disk segment (target segment suffix)) :
    Traced (r.step index suffix).1 p := by
  rcases step_cases r index suffix with hstay | ⟨segment, cleared, hindex, hother, hclear, hend⟩
  · rwa [hstay]
  have hspared := hspares segment hindex hother
  have hcleared := h.of_clear hspared.goal hclear
  rcases hend with hstop | ⟨d', hrename, hmoved⟩
  · rwa [hstop]
  · rw [hmoved]
    have hsame := (sameEntries_of_clear hspared.goal hclear).1
    exact hcleared.of_rename (r := { r with disk := cleared }) hindex (hspared.of_sameEntries hsame)
      hrename _

theorem traced_steps {moves : List (Nat × String)} (h : Traced r p)
    (hspares : StepsSparePaths r moves) : Traced (r.steps moves).1 p := by
  induction moves generalizing r with
  | nil => exact h
  | cons move moves ih =>
    obtain ⟨index, suffix⟩ := move
    have hstep := traced_step h hspares.1
    rw [steps]
    cases hresult : r.step index suffix with
    | mk r' fault =>
      rw [hresult] at hstep
      cases fault with
      | some fault => exact hstep
      | none =>
        have hrest := hspares.2 (by rw [hresult])
        rw [hresult] at hrest
        exact ih hstep hrest

theorem Traced.renewFiles (names : NewNames) (playlists : List Path)
    (h : Traced { r with disk := d } p) :
    Traced { r with disk := (renewFiles names d playlists).1 } p := by
  induction playlists generalizing d with
  | nil => exact h
  | cons playlist playlists ih =>
    rw [Renaming.renewFiles]
    cases hrenew : renewFile names d playlist with
    | error fault => exact h
    | ok d' =>
      apply ih
      rcases renewFile_cases hrenew with rfl | ⟨R, there, bytes, hthere, rfl⟩
      · exact h
      · have hlast : IsLast d R := isLast_of_plain hthere id
        refine h.of_disk (r := { r with disk := d }) (fun q S hend => hend.put hlast _) ?_
        intro S hgone
        rw [node?_put, if_neg ?_]
        · exact hgone
        · rintro ⟨_, rfl⟩
          cases hthere.symm.trans hgone

/-- However far a renaming comes, the paths that were given are traced. -/
theorem traced_renameSegments {files : List Path} {suffixes : List String}
    (hspares : StepsSparePaths { files, disk := d } ((order files).zip suffixes)) (hp : p ∈ files) :
    Traced (renameSegments d files suffixes).1 p := by
  have hmoved := traced_steps (.listed hp) hspares
  unfold renameSegments
  rcases run_cases { files, disk := d } ((order files).zip suffixes) with hsame | hrenewed
  · rwa [hsame]
  · rw [hrenewed]
    exact hmoved.renewFiles _ _

theorem Traced.not_isFile (hremove : ∀ q, r.disk.refuses (.remove q) = none)
    (hdeep : ∀ q ∈ r.files, ¬ IsTooDeep r.disk q) (h : Traced r p) :
    (Workbench.removeFiles r.disk r.files).isFile p = false := by
  have hwithin := Workbench.within_removeFiles r.disk r.files
  cases h with
  | listed mem => exact Workbench.not_isFile_removeFiles hremove p mem
  | empty S entry gone =>
    refine Bool.eq_false_iff.2 fun hfile => ?_
    obtain ⟨R, hend, _, hnode⟩ := exists_endsAt_of_isFile hfile
    obtain rfl := (hend.of_guides hwithin.guides).unique entry
    rcases hnode with ⟨bytes, hnode⟩ | ⟨target, hnode⟩
    · cases (hwithin.nodes R _ hnode).symm.trans gone
    · cases (hwithin.nodes R _ hnode).symm.trans gone
  | shared q mem S entry other =>
    refine Bool.eq_false_iff.2 fun hfile => ?_
    have hentry := Workbench.endsAt_removeFiles hremove entry r.files
    have hother := Workbench.endsAt_removeFiles hremove other r.files
    have hleft := isFile_of_endsAt_of_isFile hwithin hfile hentry hother (hdeep q mem)
    rw [Workbench.not_isFile_removeFiles hremove q mem] at hleft
    cases hleft

/-- What there is to rename: the files of a run, on the disk as the run leaves it. -/
structure Variants where
  disk : Disk
  files : List Path
  suffixes : List String

namespace Variants

def renamed (v : Variants) : Renaming := (renameSegments v.disk v.files v.suffixes).1

/-- The list of the renaming leads to all files that were given. -/
structure KeepsTrack (v : Variants) : Prop where
  steps : StepsSparePaths { files := v.files, disk := v.disk } ((order v.files).zip v.suffixes)
  links : ∀ q ∈ v.renamed.files, ¬ v.renamed.disk.IsTooDeep q

def currentPath (v : Variants) (p : Path) : Path :=
  (v.renamed.files[v.files.idxOf p]?).getD p

variable {v : Variants}

theorem currentPath_mem {p : Path} (hp : p ∈ v.files) : v.currentPath p ∈ v.renamed.files := by
  have hbound : v.files.idxOf p < v.renamed.files.length := by
    rw [renamed, (keeps_renameSegments v.disk v.files v.suffixes).length]
    exact List.idxOf_lt_length_of_mem hp
  rw [currentPath, List.getElem?_eq_getElem hbound]
  exact List.getElem_mem hbound

theorem removable_renamed (hremove : ∀ p, v.disk.refuses (.remove p) = none) :
    ∀ p, v.renamed.disk.refuses (.remove p) = none := by
  intro p
  rw [renamed, (keeps_renameSegments v.disk v.files v.suffixes).refuses]
  exact hremove p

theorem not_isFile_currentPath (hremove : ∀ p, v.disk.refuses (.remove p) = none) {p : Path}
    (hp : p ∈ v.files) :
    (Workbench.removeFiles v.renamed.disk v.renamed.files).isFile (v.currentPath p) = false :=
  Workbench.not_isFile_removeFiles (removable_renamed hremove) _ (currentPath_mem hp)

/-- After cleaning up no file is left where it was before. -/
theorem not_isFile_of_keepsTrack (hremove : ∀ p, v.disk.refuses (.remove p) = none)
    (htrack : v.KeepsTrack) {p : Path} (hp : p ∈ v.files) :
    (Workbench.removeFiles v.renamed.disk v.renamed.files).isFile p = false :=
  (traced_renameSegments htrack.steps hp).not_isFile (removable_renamed hremove) htrack.links

end Variants

end Montage.Playlist
