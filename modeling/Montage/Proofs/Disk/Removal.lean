import Montage.Engine.Workbench
import Montage.Proofs.Disk.Entry

/-!
# Removing files

If deletions are not refused, removing a path leaves no file at it: the entry of
the path goes, whether it is the file or a link to it. Removing more takes nodes
away only, so no path becomes a file again. Hence `not_isFile_removeFiles`: after
a list of paths is removed, none of them leads to a file.

Since no walk passes through what is removed, the other paths keep their entries,
`endsAt_removeFiles`.
-/

namespace Montage

namespace Disk

variable {d : Disk} {p : Path} {R S : Route}

theorem node?_drop (d : Disk) (R S : Route) :
    (d.drop R).node? S = if S ≠ [] ∧ S = R then none else d.node? S := by
  unfold node? drop
  by_cases hroot : S = []
  · simp [hroot]
  · by_cases hsame : S = R
    · subst hsame
      simp [hroot]
    · simp [hroot, hsame, Std.TreeMap.getElem?_erase, Ne.symm hsame]

theorem node?_put (d : Disk) (R S : Route) (node : Node) :
    (d.put R node).node? S = if S ≠ [] ∧ S = R then some node else d.node? S := by
  unfold node? put
  by_cases hroot : S = []
  · simp [hroot]
  · by_cases hsame : S = R
    · subst hsame
      simp [hroot]
    · simp [hroot, hsame, Std.TreeMap.getElem?_insert, Ne.symm hsame]

theorem within_drop (d : Disk) (R : Route) : Within (d.drop R) d := by
  refine ⟨rfl, ?_⟩
  intro S node hnode
  rw [node?_drop] at hnode
  split at hnode
  · cases hnode
  · exact hnode

theorem Walks.drop (hlast : IsLast d R) {links : Nat} {here : Route} {steps : List String}
    {e : Ending} (h : Walks d false links here steps e) :
    Walks (d.drop R) false links here steps e := by
  induction h with
  | stop => exact stop
  | idle hidle _ ih => exact idle hidle ih
  | up _ ih => exact up ih
  | last hname hrest _ => exact last hname hrest fun hfalse => absurd hfalse Bool.false_ne_true
  | enter hname hrest hlength hnode _ ih =>
      refine enter hname hrest hlength ?_ ih
      rw [node?_drop, if_neg ?_]
      · exact hnode
      · rintro ⟨_, hroute⟩
        exact hlast.directory (hroute ▸ hnode)
  | @link _ here step rest _ target hname hrest hlength hnode hwalk ih =>
      refine link hname hrest hlength ?_ ih
      rw [node?_drop, if_neg ?_]
      · exact hnode
      · rintro ⟨_, rfl⟩
        have hon : rest.all (· = "") = false := by
          cases hall : rest.all (· = "") with
          | false => rfl
          | true => exact absurd (hrest hall) Bool.false_ne_true
        have hparent : (here ++ [step]).dropLast = here := by simp
        have hbarred := hlast.link target hnode rest hon
        rw [hparent] at hbarred
        exact hbarred _ _ hwalk

theorem EndsAt.drop (hlast : IsLast d R) (h : EndsAt d p S) : EndsAt (d.drop R) p S := by
  obtain ⟨e, hlocate, hend⟩ := h
  obtain ⟨hfault, hwalk⟩ := locate_eq_ok_iff.1 hlocate
  exact ⟨e, locate_eq_ok_iff.2 ⟨hfault, hwalk.drop hlast⟩, hend⟩

theorem remove_of_endsAt (hremove : d.refuses (.remove p) = none) (h : EndsAt d p R) {node : Node}
    (hnode : d.node? R = some node) (hdirectory : node ≠ .directory) :
    d.remove p = .ok (d.drop R) := by
  obtain ⟨e, hlocate, rfl, hname, hslash, hlength⟩ := h
  have hlookup : d.lookup e = .ok (some node) := by rw [lookup_eq_ok hlength, hnode]
  rw [remove, hremove]
  refine bind_eq_ok_iff.2 ⟨e, hlocate, bind_eq_ok_iff.2 ⟨some node, hlookup, ?_⟩⟩
  have hasked : ¬ e.slash = true := by simp [hslash]
  cases node with
  | directory => exact absurd rfl hdirectory
  | file bytes => exact if_neg hasked
  | link target => exact if_neg hasked
  | sink => exact if_neg hasked

theorem exists_of_remove {d' : Disk} (h : d.remove p = .ok d') :
    ∃ e node, d.locate false p = .ok e ∧ d.node? e.route = some node ∧ node ≠ .directory ∧
      d' = d.drop e.route ∧ e.slash = false ∧ (e.name.getD "").utf8ByteSize ≤ nameLimit := by
  unfold remove at h
  split at h
  · cases h
  obtain ⟨e, hlocate, h⟩ := bind_eq_ok_iff.1 h
  obtain ⟨there, hlookup, h⟩ := bind_eq_ok_iff.1 h
  obtain ⟨hlength, hthere⟩ := of_lookup_eq_ok hlookup
  split at h
  · cases h
  · rename_i node hnode
    split at h
    · cases h
    · rename_i hslash
      cases h
      refine ⟨e, node, hlocate, hthere, ?_, rfl, Bool.eq_false_iff.2 hslash, hlength⟩
      rintro rfl
      exact hnode rfl
  · cases h

theorem endsAt_of_remove {d' : Disk} (h : d.remove p = .ok d') (hholds : d.holds p = true) :
    ∃ R node, EndsAt d p R ∧ d.node? R = some node ∧ node ≠ .directory ∧ d' = d.drop R := by
  obtain ⟨e, node, hlocate, hnode, hdirectory, hdropped, hslash, hlength⟩ := exists_of_remove h
  refine ⟨e.route, node, ⟨e, hlocate, rfl, ?_, hslash, hlength⟩, hnode, hdirectory, hdropped⟩
  obtain ⟨⟨R, there⟩, hresolve⟩ : ∃ found, d.resolve p = .ok found := by
    unfold holds find? at hholds
    cases hresolve : d.resolve p with
    | ok found => exact ⟨found, rfl⟩
    | error fault => simp [hresolve, Except.toOption] at hholds
  obtain ⟨last, hlast, harrive⟩ := exists_of_resolve hresolve
  obtain ⟨rfl, hthere, _, hasked⟩ := of_arrive_eq_ok harrive
  obtain ⟨hfault, hwalk⟩ := locate_eq_ok_iff.1 hlast
  obtain ⟨e', hwalk', hend⟩ := hwalk.unfollowed
  cases (locate_eq_ok_iff.2 ⟨hfault, hwalk'⟩).symm.trans hlocate
  rcases hend with rfl | ⟨_, _, _, _, hname, _⟩
  · cases hnode.symm.trans hthere
    exact (hasked.resolve_left hdirectory).2
  · exact hname

end Disk

namespace Workbench

open Disk

variable {d : Disk} {p : Path}

theorem removeFile_cases (hremove : d.refuses (.remove p) = none) :
    (d.isFile p = false ∧ removeFile d p = d) ∨
      ∃ R, EndsAt d p R ∧ removeFile d p = d.drop R ∧ IsLast d R := by
  cases hfile : d.isFile p with
  | false =>
      left
      simp [removeFile, hfile]
  | true =>
      right
      obtain ⟨R, hend, hlast, hnode⟩ := exists_endsAt_of_isFile hfile
      have hdropped : d.remove p = .ok (d.drop R) := by
        rcases hnode with ⟨bytes, hnode⟩ | ⟨target, hnode⟩
        · exact remove_of_endsAt hremove hend hnode (by simp)
        · exact remove_of_endsAt hremove hend hnode (by simp)
      exact ⟨R, hend, by simp [removeFile, hfile, hdropped], hlast⟩

/-- Whatever becomes of a removal, at most one entry is gone. -/
theorem removeFile_eq (d : Disk) (p : Path) :
    removeFile d p = d ∨ ∃ R, removeFile d p = d.drop R := by
  unfold removeFile
  split
  · split
    · rename_i d' hremove
      obtain ⟨e, _, _, _, _, hdropped, _⟩ := exists_of_remove hremove
      exact .inr ⟨e.route, hdropped⟩
    · exact .inl rfl
  · exact .inl rfl

@[simp] theorem refuses_removeFile (d : Disk) (p : Path) : (removeFile d p).refuses = d.refuses := by
  rcases removeFile_eq d p with hsame | ⟨R, hdropped⟩
  · rw [hsame]
  · rw [hdropped, drop]

@[simp] theorem workingDirectory_removeFile (d : Disk) (p : Path) :
    (removeFile d p).workingDirectory = d.workingDirectory := by
  rcases removeFile_eq d p with hsame | ⟨R, hdropped⟩
  · rw [hsame]
  · rw [hdropped, drop]

theorem within_removeFile (d : Disk) (p : Path) : Within (removeFile d p) d := by
  rcases removeFile_eq d p with hsame | ⟨R, hdropped⟩
  · rw [hsame]
    exact Within.refl d
  · rw [hdropped]
    exact within_drop d R

theorem not_isFile_removeFile (hremove : d.refuses (.remove p) = none) :
    (removeFile d p).isFile p = false := by
  rcases removeFile_cases hremove with ⟨hfile, hsame⟩ | ⟨R, hend, hdropped, _⟩
  · rw [hsame, hfile]
  · rw [hdropped]
    cases hfile : (d.drop R).isFile p with
    | false => rfl
    | true =>
        obtain ⟨S, hend', _, hnode⟩ := exists_endsAt_of_isFile hfile
        have hroute : S = R := (hend'.of_guides (within_drop d R).guides).unique hend
        have hgone : (d.drop R).node? S = none := by
          rw [node?_drop, if_pos ⟨hend'.ne_nil, hroute⟩]
        rcases hnode with ⟨bytes, hnode⟩ | ⟨target, hnode⟩
        · rw [hgone] at hnode
          cases hnode
        · rw [hgone] at hnode
          cases hnode

theorem refuses_removeFiles (d : Disk) (files : List Path) :
    (removeFiles d files).refuses = d.refuses := by
  induction files generalizing d with
  | nil => rfl
  | cons p files ih =>
      show (removeFiles (removeFile d p) files).refuses = d.refuses
      rw [ih, refuses_removeFile]

theorem workingDirectory_removeFiles (d : Disk) (files : List Path) :
    (removeFiles d files).workingDirectory = d.workingDirectory := by
  induction files generalizing d with
  | nil => rfl
  | cons p files ih =>
      show (removeFiles (removeFile d p) files).workingDirectory = d.workingDirectory
      rw [ih, workingDirectory_removeFile]

theorem within_removeFiles (d : Disk) (files : List Path) : Within (removeFiles d files) d := by
  induction files generalizing d with
  | nil => exact Within.refl d
  | cons p files ih => exact (ih (removeFile d p)).trans (within_removeFile d p)

theorem not_isFile_of_within {d' : Disk} (hdisks : Within d' d) (h : d.isFile p = false) :
    d'.isFile p = false := by
  cases hfile : d'.isFile p with
  | false => rfl
  | true =>
      rw [isFile_of_within hdisks hfile] at h
      cases h

/-- After paths are removed none of them leads to a file. -/
theorem not_isFile_removeFiles (hremove : ∀ p, d.refuses (.remove p) = none) {files : List Path} :
    ∀ p ∈ files, (removeFiles d files).isFile p = false := by
  induction files generalizing d with
  | nil => simp
  | cons q files ih =>
      have hremove' : ∀ p, (removeFile d q).refuses (.remove p) = none := by
        simpa using hremove
      intro p hp
      rcases List.mem_cons.1 hp with rfl | hp
      · exact not_isFile_of_within (within_removeFiles _ files) (not_isFile_removeFile (hremove p))
      · exact ih hremove' p hp

theorem endsAt_removeFile {R : Route} (hremove : d.refuses (.remove p) = none) {q : Path}
    (h : EndsAt d q R) : EndsAt (removeFile d p) q R := by
  rcases removeFile_cases hremove with ⟨_, hsame⟩ | ⟨S, _, hdropped, hlast⟩
  · rw [hsame]
    exact h
  · rw [hdropped]
    exact h.drop hlast

theorem endsAt_removeFiles {R : Route} (hremove : ∀ p, d.refuses (.remove p) = none)
    (h : EndsAt d p R) (files : List Path) : EndsAt (removeFiles d files) p R := by
  induction files generalizing d with
  | nil => exact h
  | cons q files ih =>
      have hremove' : ∀ p, (removeFile d q).refuses (.remove p) = none := by
        simpa using hremove
      exact ih hremove' (endsAt_removeFile (hremove q) h)

end Workbench

end Montage
