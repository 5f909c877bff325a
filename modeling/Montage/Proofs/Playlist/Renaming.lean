import Montage.Playlist.Rename
import Montage.Proofs.Disk.Replacing

/-!
# How far a renaming comes

A step of a renaming does nothing, or it clears the goal, or it moves the segment as well
(`step_cases`). A renaming that fails has taken some of its steps, and one that succeeds has
taken all of them and has renewed the playlists (`of_run_eq_ok`). The steps take each index of
the list once, so every segment still has its old path in the list when its step comes
(`getElem?_files_step`, `nodup_moves`).

Clearing a goal through which no path leads on leaves the entries of all paths
(`sameEntries_of_clear`).
-/

namespace Montage.Playlist

open Disk

namespace Renaming

variable {r : Renaming}

/-- Nothing is done, the goal is cleared, or the segment is moved as well. -/
theorem step_cases (r : Renaming) (index : Nat) (suffix : String) :
    (r.step index suffix).1 = r ∨
      ∃ segment d, r.files[index]? = some segment ∧
        (target segment suffix).same segment = false ∧
          clear r.disk (target segment suffix) = .ok d ∧
            ((r.step index suffix).1 = { r with disk := d } ∨
              ∃ d', d.rename segment (target segment suffix) = .ok d' ∧
                (r.step index suffix).1 =
                  { files := r.files.set index (target segment suffix)
                    names := r.names.insert segment.fileName (target segment suffix).fileName
                    disk := d' }) := by
  cases hsegment : r.files[index]? with
  | none => exact Or.inl (by simp [step, hsegment])
  | some segment =>
      cases hsame : (target segment suffix).same segment with
      | true => exact Or.inl (by simp [step, hsegment, hsame])
      | false =>
          cases hclear : clear r.disk (target segment suffix) with
          | error fault => exact Or.inl (by simp [step, hsegment, hsame, hclear])
          | ok d =>
              refine Or.inr ⟨segment, d, rfl, hsame, hclear, ?_⟩
              cases hrename : d.rename segment (target segment suffix) with
              | error fault => exact Or.inl (by simp [step, hsegment, hsame, hclear, hrename])
              | ok d' =>
                  exact Or.inr ⟨d', rfl, by simp [step, hsegment, hsame, hclear, hrename]⟩

theorem clear_cases {d d' : Disk} {goal : Path} (h : clear d goal = .ok d') :
    d' = d ∨ ∃ e node, d.locate false goal = .ok e ∧ d.node? e.route = some node ∧
      node ≠ .directory ∧ d' = d.drop e.route := by
  unfold clear at h
  split at h
  · obtain ⟨e, node, hlocate, hnode, hdirectory, hdropped, _⟩ := exists_of_remove h
    exact Or.inr ⟨e, node, hlocate, hnode, hdirectory, hdropped⟩
  · cases h
    exact Or.inl rfl

theorem clear_cases_of_replaceable {d cleared : Disk} {goal : Path} (hgoal : Replaceable d goal)
    (h : clear d goal = .ok cleared) :
    d.holds goal = false ∧ cleared = d ∨
      ∃ T, EndsAt d goal T ∧ cleared = d.drop T ∧ SameEntries d (d.drop T) := by
  unfold clear at h
  split at h
  · rename_i hholds
    obtain ⟨T, node, hT, hnode, hdirectory, hdropped⟩ := endsAt_of_remove h hholds
    have hlast := (hgoal T hT).resolve_left (by simpa [hnode] using hdirectory)
    exact Or.inr ⟨T, hT, hdropped, sameEntries_drop hlast⟩
  · rename_i hholds
    cases h
    exact Or.inl ⟨by simpa using hholds, rfl⟩

theorem sameEntries_of_clear {d cleared : Disk} {goal : Path} (hgoal : Replaceable d goal)
    (h : clear d goal = .ok cleared) :
    SameEntries d cleared ∧
      ∀ R, cleared.node? R = d.node? R ∨ EndsAt d goal R ∧ cleared.node? R = none := by
  rcases clear_cases_of_replaceable hgoal h with ⟨_, rfl⟩ | ⟨T, hT, rfl, hsame⟩
  · exact ⟨SameEntries.refl _, fun R => Or.inl rfl⟩
  · refine ⟨hsame, fun R => ?_⟩
    rw [node?_drop]
    by_cases hR : R ≠ [] ∧ R = T
    · exact Or.inr ⟨hR.2 ▸ hT, if_pos hR⟩
    · exact Or.inl (if_neg hR)

theorem mem_set_of_ne {files : List Path} {index : Nat} {segment goal q : Path}
    (hindex : files[index]? = some segment) (hq : q ∈ files) (hne : q ≠ segment) :
    q ∈ files.set index goal := by
  obtain ⟨other, hother⟩ := List.mem_iff_getElem?.1 hq
  refine List.mem_iff_getElem?.2 ⟨other, ?_⟩
  rw [List.getElem?_set_ne ?_]
  · exact hother
  · rintro rfl
    rw [hindex] at hother
    exact hne (Option.some.inj hother).symm

theorem of_step_eq_ok {r' : Renaming} {index : Nat} {suffix : String} {segment : Path}
    (h : r.step index suffix = (r', none)) (hsegment : r.files[index]? = some segment) :
    (target segment suffix).same segment = true ∧ r' = r ∨
      (target segment suffix).same segment = false ∧ ∃ cleared d,
        clear r.disk (target segment suffix) = .ok cleared ∧
          cleared.rename segment (target segment suffix) = .ok d ∧
            r' = { files := r.files.set index (target segment suffix)
                   names := r.names.insert segment.fileName (target segment suffix).fileName
                   disk := d } := by
  unfold step at h
  rw [hsegment] at h
  cases hsame : (target segment suffix).same segment with
  | true =>
    simp only [hsame, if_true, Prod.mk.injEq, and_true] at h
    exact Or.inl ⟨rfl, h.symm⟩
  | false =>
    simp only [hsame, Bool.false_eq_true, if_false] at h
    cases hclear : clear r.disk (target segment suffix) with
    | error fault => simp [hclear] at h
    | ok cleared =>
      cases hrename : cleared.rename segment (target segment suffix) with
      | error fault => simp [hclear, hrename] at h
      | ok d =>
        simp only [hclear, hrename, Prod.mk.injEq, and_true] at h
        exact Or.inr ⟨rfl, cleared, d, rfl, hrename, h.symm⟩

/-- A renaming that succeeds has taken all steps, and has renewed all playlists if a segment got
another name. -/
theorem of_run_eq_ok {r' : Renaming} {moves : List (Nat × String)} (h : r.run moves = (r', none)) :
    ∃ moved, r.steps moves = (moved, none) ∧ r'.files = moved.files ∧
      (moved.names.isEmpty = true ∧ r'.disk = moved.disk ∨
        renewFiles moved.names moved.disk (moved.files.filter isPlaylist) = (r'.disk, none)) := by
  unfold run at h
  cases hsteps : r.steps moves with
  | mk moved fault =>
    rw [hsteps] at h
    cases fault with
    | some fault => cases h
    | none =>
      refine ⟨moved, rfl, ?_⟩
      by_cases hnames : moved.names.isEmpty = true
      · simp only [hnames, if_true, Prod.mk.injEq, and_true] at h
        subst h
        exact ⟨rfl, Or.inl ⟨hnames, rfl⟩⟩
      · cases hrenew : renewFiles moved.names moved.disk (moved.files.filter isPlaylist) with
        | mk disk fault =>
          simp only [hnames, hrenew, Bool.false_eq_true, if_false, Prod.mk.injEq] at h
          obtain ⟨rfl, rfl⟩ := h
          exact ⟨rfl, Or.inr rfl⟩

theorem getElem?_files_step (r : Renaming) {index other : Nat} (suffix : String)
    (hother : other ≠ index) : (r.step index suffix).1.files[other]? = r.files[other]? := by
  rcases step_cases r index suffix with hsame | ⟨_, _, _, _, _, hcleared | ⟨_, _, hmoved⟩⟩
  · rw [hsame]
  · rw [hcleared]
  · rw [hmoved]
    exact List.getElem?_set_ne hother.symm

theorem steps_cons (r : Renaming) (index : Nat) (suffix : String) (moves : List (Nat × String)) :
    (r.steps ((index, suffix) :: moves)).1 = (r.step index suffix).1 ∨
      (r.steps ((index, suffix) :: moves)).1 = ((r.step index suffix).1.steps moves).1 := by
  rw [steps]
  cases hstep : r.step index suffix with
  | mk r' fault =>
      cases fault with
      | none => exact Or.inr rfl
      | some fault => exact Or.inl rfl

theorem nodup_order (files : List Path) : (order files).Nodup := by
  unfold order
  exact (List.mergeSort_perm _ _).nodup_iff.2 (List.nodup_range.filter _)

theorem order_eq {files : List Path} {indices : List Nat}
    (hsegments : (List.range files.length).filter
      (fun i => !isPlaylist (files[i]?.getD ⟨""⟩)) = indices)
    (hsorted : indices.Pairwise fun i j =>
      (files[i]?.getD ⟨""⟩).fileName ≤ (files[j]?.getD ⟨""⟩).fileName) :
    order files = indices := by
  simp only [order]
  rw [hsegments]
  apply List.mergeSort_of_pairwise
  simpa using hsorted

theorem nodup_moves {indices : List Nat} (h : indices.Nodup) (suffixes : List String) :
    ((indices.zip suffixes).map Prod.fst).Nodup := by
  rw [List.zip_eq_zip_take_min, List.map_fst_zip (by simp)]
  exact h.sublist (List.take_sublist _ _)

theorem renewFile_cases {names : NewNames} {d d' : Disk} {playlist : Path}
    (h : renewFile names d playlist = .ok d') :
    d' = d ∨ ∃ R there bytes, d.node? R = some (.file there) ∧ d' = d.put R (.file bytes) := by
  obtain ⟨text, hread, hwrite⟩ := bind_eq_ok_iff.1 h
  obtain ⟨old, hold, _⟩ := bind_eq_ok_iff.1 hread
  rcases write_of_read hold hwrite with hsame | ⟨R, there, hthere, hput⟩
  · exact Or.inl hsame
  · exact Or.inr ⟨R, there, _, hthere, hput⟩

theorem run_cases (r : Renaming) (moves : List (Nat × String)) :
    (r.run moves).1 = (r.steps moves).1 ∨
      (r.run moves).1 = { (r.steps moves).1 with
        disk := (renewFiles (r.steps moves).1.names (r.steps moves).1.disk
          ((r.steps moves).1.files.filter isPlaylist)).1 } := by
  unfold run
  cases r.steps moves with
  | mk r fault =>
      cases fault with
      | some fault => exact Or.inl rfl
      | none =>
          by_cases hnames : r.names.isEmpty = true
          · exact Or.inl (congrArg Prod.fst (if_pos hnames))
          · exact Or.inr (congrArg Prod.fst (if_neg hnames))

structure Keeps (r r' : Renaming) : Prop where
  refuses : r'.disk.refuses = r.disk.refuses
  length : r'.files.length = r.files.length

theorem Keeps.refl (r : Renaming) : Keeps r r := ⟨rfl, rfl⟩

theorem Keeps.trans {r r' r'' : Renaming} (h : Keeps r r') (h' : Keeps r' r'') :
    Keeps r r'' :=
  ⟨h'.refuses.trans h.refuses, h'.length.trans h.length⟩

theorem refuses_clear {d d' : Disk} {goal : Path} (h : clear d goal = .ok d') :
    d'.refuses = d.refuses := by
  rcases clear_cases h with rfl | ⟨_, _, _, _, _, rfl⟩
  · rfl
  · rfl

theorem keeps_step (r : Renaming) (index : Nat) (suffix : String) :
    Keeps r (r.step index suffix).1 := by
  rcases step_cases r index suffix with hsame | ⟨_, _, _, _, hclear, hcleared | ⟨_, hrename, hmoved⟩⟩
  · rw [hsame]
    exact Keeps.refl r
  · rw [hcleared]
    exact ⟨refuses_clear hclear, rfl⟩
  · rw [hmoved]
    exact ⟨(refuses_rename hrename).trans (refuses_clear hclear), List.length_set⟩

theorem keeps_steps (r : Renaming) (moves : List (Nat × String)) :
    Keeps r (r.steps moves).1 := by
  induction moves generalizing r with
  | nil => exact Keeps.refl r
  | cons move moves ih =>
      obtain ⟨index, suffix⟩ := move
      rcases steps_cons r index suffix moves with hfirst | hrest
      · rw [hfirst]
        exact keeps_step r index suffix
      · rw [hrest]
        exact (keeps_step r index suffix).trans (ih _)

theorem refuses_renewFiles (names : NewNames) (d : Disk) (playlists : List Path) :
    (renewFiles names d playlists).1.refuses = d.refuses := by
  induction playlists generalizing d with
  | nil => rfl
  | cons playlist playlists ih =>
      rw [renewFiles]
      cases hrenew : renewFile names d playlist with
      | error fault => rfl
      | ok d' =>
          rcases renewFile_cases hrenew with rfl | ⟨_, _, _, _, rfl⟩
          · exact ih d'
          · exact ih _

end Renaming

open Renaming

theorem keeps_renameSegments (d : Disk) (files : List Path) (suffixes : List String) :
    Keeps { files, disk := d } (renameSegments d files suffixes).1 := by
  unfold renameSegments
  have hmoved := keeps_steps { files, disk := d } ((order files).zip suffixes)
  rcases run_cases { files, disk := d } ((order files).zip suffixes) with hsame | hrenewed
  · rw [hsame]
    exact hmoved
  · rw [hrenewed]
    exact hmoved.trans ⟨refuses_renewFiles _ _ _, rfl⟩

end Montage.Playlist
