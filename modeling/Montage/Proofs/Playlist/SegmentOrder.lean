import Mathlib.Data.List.Nodup
import Montage.Proofs.Path
import Montage.Proofs.Playlist.Renaming
import Montage.Proofs.Text.Decimal
import Std.Data.String.ToNat

/-!
# Which suffix a segment gets

The segments of a run differ in the number of their variant, and the renaming takes
them in the order of their names. So the suffixes are given out in the order of the
numbers' decimal texts, `map_order`, however the files are listed and whatever
playlists stand between them.

A renaming that succeeds has moved each segment in turn (`Moves`), and the list has the
new path of each (`renamed_of_renameSegments`). With more than ten variants the order of
the texts is not that of the numbers.
-/

namespace Montage.Playlist

open Renaming

/-- How the segments of a run are named: all in one directory, with the number of the
variant behind the base name. -/
structure SegmentNames where
  directory : Path
  base : String
  extension : String
  slash_base : '/' ∉ base.toList
  slash_extension : '/' ∉ extension.toList
  dot_extension : '.' ∉ extension.toList

namespace SegmentNames

variable (n : SegmentNames)

def stem (i : Nat) : String := n.base ++ "_" ++ toString i

def name (i : Nat) : String := n.stem i ++ "." ++ n.extension

def path (i : Nat) : Path := n.directory.join ⟨n.name i⟩

def renamed (i : Nat) (suffix : String) : Path := n.directory.join ⟨n.stem i ++ suffix⟩

theorem isName_stem (i : Nat) : Path.IsName (n.stem i) := by
  constructor
  · have hnumber : '/' ∉ (toString i).toList := not_mem_toString (by decide)
    simp only [stem, String.toList_append, List.mem_append, not_or]
    exact ⟨⟨n.slash_base, by decide⟩, hnumber⟩
  · exact ⟨'_', by simp [stem], by decide⟩

theorem isName_name (i : Nat) : Path.IsName (n.name i) := by
  rw [name, String.append_assoc]
  apply (n.isName_stem i).append
  rw [String.toList_append, List.mem_append, not_or]
  exact ⟨by decide, n.slash_extension⟩

theorem fileName?_path (i : Nat) : (n.path i).fileName? = some (n.name i) :=
  (n.isName_name i).fileName?_join n.directory

theorem fileName_path (i : Nat) : (n.path i).fileName = n.name i := by
  rw [Path.fileName, n.fileName?_path, Option.getD_some]

theorem splitName_name (i : Nat) : Path.splitName (n.name i) = (n.stem i, some n.extension) := by
  apply Path.splitName_append _ n.dot_extension
  intro hempty
  obtain ⟨c, hc, _⟩ := (n.isName_stem i).other
  rw [hempty] at hc
  exact List.not_mem_nil hc

theorem stem_path (i : Nat) : (n.path i).stem = n.stem i := by
  rw [Path.stem, n.fileName?_path, Option.map_some, n.splitName_name, Option.getD_some]

theorem same_target (i : Nat) (suffix : String) :
    (target (n.path i) suffix).same (n.renamed i suffix) = true := by
  obtain ⟨parent, hparent, hcomponents⟩ :=
    Path.exists_parent_join n.directory (n.isName_name i).pieces_eq (n.isName_name i).isIdle
  have hnamed := (n.isName_stem i).isNamed_append suffix
  rw [Path.same_iff, target, n.stem_path, path, hparent, Option.getD_some, renamed,
    Path.components_join _ hnamed, Path.components_join _ hnamed, hcomponents]

theorem name_le_name_iff {i j : Nat} : n.name i ≤ n.name j ↔ toString i ≤ toString j := by
  rw [name, name, stem, stem]
  exact numbered_le_numbered_iff (n.base ++ "_") n.extension rfl (by decide)

end SegmentNames

def pathAt (files : List Path) (index : Nat) : Path := files[index]?.getD ⟨""⟩

theorem map_pathAt (files : List Path) : (List.range files.length).map (pathAt files) = files := by
  apply List.ext_getElem
  · simp
  · intro i hi _
    simp at hi
    simp [pathAt, hi]

theorem map_order_perm (files : List Path) :
    ((order files).map (pathAt files)).Perm (files.filter fun p => !isPlaylist p) := by
  have hsegments : ((List.range files.length).filter fun i => !isPlaylist (pathAt files i)).map
      (pathAt files) = files.filter fun p => !isPlaylist p := by
    conv_rhs => rw [← map_pathAt files, List.filter_map]
    rfl
  rw [← hsegments]
  exact (List.mergeSort_perm _ _).map _

theorem pairwise_order (files : List Path) :
    (order files).Pairwise fun i j => (pathAt files i).fileName ≤ (pathAt files j).fileName :=
  pairwise_mergeSort_text (fun i => (pathAt files i).fileName) _

theorem order_eq_of_perm {files : List Path} {indices : List Nat}
    (hsegments : indices.Perm ((List.range files.length).filter
      fun i => !isPlaylist (pathAt files i)))
    (hsorted : indices.Pairwise fun i j => (pathAt files i).fileName ≤ (pathAt files j).fileName)
    (hnames : (indices.map fun i => (pathAt files i).fileName).Nodup) :
    order files = indices := by
  have hperm : (order files).Perm indices := (List.mergeSort_perm _ _).trans hsegments.symm
  refine hperm.eq_of_pairwise ?_ (pairwise_order files) hsorted
  intro i j hi hj hij hji
  exact List.inj_on_of_nodup_map hnames (hperm.mem_iff.1 hi) hj (le_antisymm hij hji)

variable {n : SegmentNames} {files : List Path} {count : Nat}

/-- The segments are taken in the order of the texts of their numbers. -/
theorem map_order
    (h : (files.filter fun p => !isPlaylist p).Perm ((List.range count).map n.path)) :
    (order files).map (pathAt files) = (textOrder count).map n.path := by
  have hperm := ((map_order_perm files).trans h).trans ((textOrder_perm count).symm.map n.path)
  have hleft : ((order files).map (pathAt files)).Pairwise fun p q => p.fileName ≤ q.fileName :=
    List.pairwise_map.2 (pairwise_order files)
  have hright : ((textOrder count).map n.path).Pairwise fun p q => p.fileName ≤ q.fileName := by
    rw [List.pairwise_map]
    apply (pairwise_textOrder count).imp
    intro i j hij
    rw [n.fileName_path, n.fileName_path]
    exact n.name_le_name_iff.2 hij
  refine hperm.eq_of_pairwise ?_ hleft hright
  intro p q hp hq hpq hqp
  obtain ⟨i, _, rfl⟩ := List.mem_map.1 (hperm.mem_iff.1 hp)
  obtain ⟨j, _, rfl⟩ := List.mem_map.1 hq
  rw [n.fileName_path, n.fileName_path, n.name_le_name_iff] at hpq hqp
  rw [Nat.repr_injective (le_antisymm hpq hqp)]

/-- A segment is at its goal already, or is renamed in the place of whatever is there. -/
inductive Moved (d : Disk) (segment goal : Path) : Disk → Prop where
  | there (same : goal.same segment = true) : Moved d segment goal d
  | renamed {cleared d' : Disk} (same : goal.same segment = false)
      (clear_eq : clear d goal = .ok cleared) (rename_eq : cleared.rename segment goal = .ok d') :
      Moved d segment goal d'

inductive Moves : Disk → List (Path × Path) → Disk → Prop where
  | nil (d : Disk) : Moves d [] d
  | cons {d d' d'' : Disk} {segment goal : Path} {rest : List (Path × Path)}
      (first : Moved d segment goal d') (later : Moves d' rest d'') :
      Moves d ((segment, goal) :: rest) d''

section Run

variable {r r' : Renaming}

theorem step_eq_ok {index : Nat} {suffix : String} {segment : Path}
    (h : r.step index suffix = (r', none)) (hsegment : r.files[index]? = some segment) :
    Moved r.disk segment (target segment suffix) r'.disk ∧
      ∃ path, r'.files = r.files.set index path ∧
        path.same (target segment suffix) = true := by
  rcases of_step_eq_ok h hsegment with
    ⟨hsame, rfl⟩ | ⟨hsame, cleared, d, hclear, hrename, rfl⟩
  · obtain ⟨hbound, hget⟩ := List.getElem?_eq_some_iff.1 hsegment
    refine ⟨Moved.there hsame, segment, ?_, ?_⟩
    · rw [← hget, List.set_getElem_self]
    · rw [Path.same_iff] at hsame ⊢
      exact hsame.symm
  · exact ⟨Moved.renamed hsame hclear hrename, _, rfl, Path.same_refl _⟩

theorem steps_eq_ok {files : List Path} {moves : List (Nat × String)}
    (h : r.steps moves = (r', none)) (honce : (moves.map Prod.fst).Nodup)
    (hold : ∀ index ∈ moves.map Prod.fst, r.files[index]? = some (pathAt files index)) :
    Moves r.disk (moves.map fun x => (pathAt files x.1, target (pathAt files x.1) x.2)) r'.disk ∧
      (∀ other, other ∉ moves.map Prod.fst → r'.files[other]? = r.files[other]?) ∧
        ∀ x ∈ moves, ∃ path, r'.files[x.1]? = some path ∧
          path.same (target (pathAt files x.1) x.2) = true := by
  induction moves generalizing r with
  | nil =>
      cases h
      exact ⟨Moves.nil _, fun _ _ => rfl, by simp⟩
  | cons move moves ih =>
      obtain ⟨index, suffix⟩ := move
      rw [List.map_cons, List.nodup_cons] at honce
      have hsegment := hold index List.mem_cons_self
      cases hstep : r.step index suffix with
      | mk between fault =>
          rw [steps, hstep] at h
          cases fault with
          | some fault => cases h
          | none =>
              simp only at h
              obtain ⟨hmoved, path, hfiles, hsame⟩ := step_eq_ok hstep hsegment
              have hothers (other : Nat) (hother : other ≠ index) :
                  between.files[other]? = r.files[other]? := by
                rw [hfiles, List.getElem?_set_ne hother.symm]
              have hlater (other : Nat) (hother : other ∈ moves.map Prod.fst) :
                  between.files[other]? = some (pathAt files other) := by
                have hne : other ≠ index := by
                  rintro rfl
                  exact honce.1 hother
                rw [hothers other hne]
                exact hold other (List.mem_cons_of_mem _ hother)
              obtain ⟨hmoves, hrest, hpaths⟩ := ih h honce.2 hlater
              refine ⟨?_, ?_, ?_⟩
              · exact Moves.cons hmoved hmoves
              · intro other hother
                rw [List.map_cons, List.mem_cons, not_or] at hother
                rw [hrest other hother.2, hothers other hother.1]
              · intro x hx
                rcases List.mem_cons.1 hx with rfl | hx
                · have hbound := (List.getElem?_eq_some_iff.1 hsegment).1
                  exact ⟨path, by rw [hrest index honce.1, hfiles, List.getElem?_set_self hbound],
                    hsame⟩
                · exact hpaths x hx

theorem run_eq_ok {moves : List (Nat × String)} (h : r.run moves = (r', none)) :
    ∃ moved, r.steps moves = (moved, none) ∧ r'.files = moved.files ∧
      (r'.disk = moved.disk ∨ ∃ names,
        renewFiles names moved.disk (r'.files.filter isPlaylist) = (r'.disk, none)) := by
  obtain ⟨moved, hsteps, hfiles, ⟨_, hdisk⟩ | hrenew⟩ := of_run_eq_ok h
  · exact ⟨moved, hsteps, hfiles, Or.inl hdisk⟩
  · rw [← hfiles] at hrenew
    exact ⟨moved, hsteps, hfiles, Or.inr ⟨_, hrenew⟩⟩

end Run

theorem lt_length_of_mem_order {index : Nat} (h : index ∈ order files) : index < files.length := by
  have hmem := (List.mergeSort_perm _ _).mem_iff.1 h
  exact List.mem_range.1 (List.mem_filter.1 hmem).1

theorem getElem?_of_mem_order {index : Nat} (h : index ∈ order files) :
    files[index]? = some (pathAt files index) := by
  simp [pathAt, lt_length_of_mem_order h]

/-- The suffixes go to the segments in the order of the texts of their numbers, which is the
order of the numbers for up to ten variants only. -/
theorem renamed_of_renameSegments {d : Disk} {suffixes : List String} {r : Renaming}
    (hfiles : (files.filter fun p => !isPlaylist p).Perm ((List.range count).map n.path))
    (hsuffixes : suffixes.length = count) (h : renameSegments d files suffixes = (r, none)) :
    (∃ moved, Moves d (((textOrder count).zip suffixes).map fun x =>
        (n.path x.1, target (n.path x.1) x.2)) moved ∧
      (r.disk = moved ∨
        ∃ names, renewFiles names moved (r.files.filter isPlaylist) = (r.disk, none))) ∧
    (∀ i < count, ∃ (place index : Nat) (suffix : String) (path : Path),
      (textOrder count)[place]? = some i ∧ suffixes[place]? = some suffix ∧
      files[index]? = some (n.path i) ∧ r.files[index]? = some path ∧
      path.same (n.renamed i suffix) = true) ∧
    (textOrder count = List.range count ↔ count ≤ 10) := by
  obtain ⟨moved, hsteps, hlist, hdisk⟩ := run_eq_ok h
  have hmap := map_order hfiles
  have hcount : (textOrder count).length = count := by
    rw [(textOrder_perm count).length_eq, List.length_range]
  have hlength : (order files).length = suffixes.length := by
    rw [← List.length_map (pathAt files), hmap, List.length_map, hcount, hsuffixes]
  have hindices : ((order files).zip suffixes).map Prod.fst = order files :=
    List.map_fst_zip hlength.le
  have hold : ∀ index ∈ ((order files).zip suffixes).map Prod.fst,
      files[index]? = some (pathAt files index) := by
    rw [hindices]
    exact fun _ => getElem?_of_mem_order
  obtain ⟨hmoves, _, hpaths⟩ := steps_eq_ok hsteps (nodup_moves (nodup_order files) suffixes) hold
  refine ⟨⟨moved.disk, ?_, hdisk⟩, ?_, textOrder_eq_range_iff⟩
  · have hpairs : ((order files).zip suffixes).map
        (fun x => (pathAt files x.1, target (pathAt files x.1) x.2)) =
          ((textOrder count).zip suffixes).map fun x => (n.path x.1, target (n.path x.1) x.2) := by
      have hboth := congrArg (fun paths => (paths.zip suffixes).map
        fun x => (x.1, target x.1 x.2)) hmap
      simpa [List.zip_map_left, Function.comp_def] using hboth
    rw [← hpairs]
    exact hmoves
  · intro i hi
    obtain ⟨place, hplace⟩ := List.mem_iff_getElem?.1 (mem_textOrder.2 hi)
    have hbound : place < count := hcount ▸ (List.getElem?_eq_some_iff.1 hplace).1
    obtain ⟨index, hindex, hpath⟩ : ∃ index, (order files)[place]? = some index ∧
        pathAt files index = n.path i := by
      have hat := congrArg (fun paths => paths[place]?) hmap
      simpa [hplace] using hat
    obtain ⟨suffix, hsuffix⟩ : ∃ suffix, suffixes[place]? = some suffix :=
      ⟨_, List.getElem?_eq_getElem (hsuffixes ▸ hbound)⟩
    have hpair : (index, suffix) ∈ (order files).zip suffixes :=
      List.mem_of_getElem? (List.getElem?_zip_eq_some.2 ⟨hindex, hsuffix⟩)
    obtain ⟨path, hnew, hsame⟩ := hpaths _ hpair
    refine ⟨place, index, suffix, path, hplace, hsuffix, ?_, ?_, ?_⟩
    · rw [getElem?_of_mem_order (List.mem_of_getElem? hindex), hpath]
    · rw [hlist]
      exact hnew
    · rw [hpath] at hsame
      rw [Path.same_iff] at hsame ⊢
      rw [hsame]
      exact Path.same_iff.1 (n.same_target i suffix)

/-- Three segments that are listed backwards around a playlist. -/
theorem renamed_of_renameSegments_three :
    let n : SegmentNames :=
      ⟨⟨"/"⟩, "out", "mp4", by decide, by decide, by decide⟩
    let files := [n.path 2, n.path 1, ⟨"/out.m3u8"⟩, n.path 0]
    let suffixes := ["-a.mp4", "-b.mp4", "-c.mp4"]
    let d : Disk :=
      { nodes := Std.TreeMap.ofList ((["out.m3u8"], Node.file .empty) ::
          (List.range 3).map fun i => ([n.name i], Node.file .empty)) }
    ∃ r, renameSegments d files suffixes = (r, none) ∧
      ∃ (place index : Nat) (suffix : String) (path : Path),
        (textOrder 3)[place]? = some 2 ∧ suffixes[place]? = some suffix ∧
        files[index]? = some (n.path 2) ∧ r.files[index]? = some path ∧
        path.same (n.renamed 2 suffix) = true := by
  intro n files suffixes d
  have hfiles : (files.filter fun p => !isPlaylist p).Perm ((List.range 3).map n.path) := by
    decide +kernel
  have horder : order files = [3, 1, 0] :=
    order_eq_of_perm (by decide +kernel) (by decide +kernel) (by decide +kernel)
  have hsuccess : (renameSegments d files suffixes).2.isNone = true := by
    rw [renameSegments, horder]
    decide +kernel
  cases h : renameSegments d files suffixes with
  | mk r fault =>
      rw [h] at hsuccess
      obtain rfl : fault = none := Option.isNone_iff_eq_none.1 hsuccess
      obtain ⟨_, hpaths, _⟩ := renamed_of_renameSegments hfiles rfl h
      exact ⟨r, rfl, hpaths 2 (by decide)⟩

/-- Eleven segments in the order of their numbers, where the last one gets the third suffix. -/
theorem suffixes_of_eleven_segments :
    let n : SegmentNames :=
      ⟨⟨"/"⟩, "out", "mp4", by decide, by decide, by decide⟩
    let files := (List.range 11).map n.path
    let suffixes := ["-a.mp4", "-b.mp4", "-c.mp4", "-d.mp4", "-e.mp4", "-f.mp4", "-g.mp4", "-h.mp4",
      "-i.mp4", "-j.mp4", "-k.mp4"]
    let d : Disk :=
      { nodes := Std.TreeMap.ofList ((List.range 11).map fun i => ([n.name i], Node.file .empty)) }
    ∃ r, renameSegments d files suffixes = (r, none) ∧
      r.files = (["/out_0-a.mp4", "/out_1-b.mp4", "/out_2-d.mp4", "/out_3-e.mp4", "/out_4-f.mp4",
        "/out_5-g.mp4", "/out_6-h.mp4", "/out_7-i.mp4", "/out_8-j.mp4", "/out_9-k.mp4",
        "/out_10-c.mp4"].map Path.mk) ∧
      files[2]? = some (n.path 2) ∧ suffixes[2]? = some "-c.mp4" ∧
      ∀ path ∈ r.files, path.same (n.renamed 2 "-c.mp4") = false := by
  intro n files suffixes d
  have horder : order files = [0, 1, 10, 2, 3, 4, 5, 6, 7, 8, 9] :=
    order_eq_of_perm (by decide +kernel) (by decide +kernel) (by decide +kernel)
  have hrenamed : (renameSegments d files suffixes).2.isNone = true ∧
      (renameSegments d files suffixes).1.files =
        ["/out_0-a.mp4", "/out_1-b.mp4", "/out_2-d.mp4", "/out_3-e.mp4", "/out_4-f.mp4",
          "/out_5-g.mp4", "/out_6-h.mp4", "/out_7-i.mp4", "/out_8-j.mp4", "/out_9-k.mp4",
          "/out_10-c.mp4"].map Path.mk := by
    rw [renameSegments, horder]
    decide +kernel
  obtain ⟨hsuccess, hlist⟩ := hrenamed
  refine ⟨_, Prod.ext rfl (Option.isNone_iff_eq_none.1 hsuccess), hlist, rfl, rfl, ?_⟩
  rw [hlist]
  decide +kernel

end Montage.Playlist
