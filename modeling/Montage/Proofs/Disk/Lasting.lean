import Montage.Proofs.Disk.Refusal
import Montage.Proofs.Disk.Replacing

/-!
# A file while others are written and removed

Writing puts files where no directory and no link is, so each path keeps its
entry, and removing takes away nothing through which a walk passes. Hence a file
stays where it is while others are written, with its bytes unless one of the
writes goes to it, `exists_bytes_of_writes`. Whatever is written and removed, its
entry never holds anything but a file, and so it can be removed in the end,
`Reserved.find?_removeFile`.
-/

namespace Montage

namespace Disk

variable {d d' : Disk} {p : Path} {R : Route}

theorem Walks.not_link {links : Nat} {here : Route} {steps : List String} {e : Ending}
    (h : Walks d true links here steps e) (hname : e.name.isSome = true) (target : Path) :
    d.node? e.route ≠ some (.link target) := by
  induction h with
  | stop => cases hname
  | idle _ _ ih => exact ih hname
  | up _ ih => exact ih hname
  | last _ _ hlink => exact hlink rfl target
  | enter _ _ _ _ _ ih => exact ih hname
  | link _ _ _ _ _ ih => exact ih hname

/-- A write goes to where no directory and no link is. A file that is there is the one to
which the path leads. -/
theorem write_cases {bytes : ByteArray} (h : d.write p bytes = .ok d') :
    ∃ S, (∀ there, d.node? S = some there → ¬ there.Guides) ∧
      (∀ old, d.node? S = some (.file old) → d.resolve p = .ok (S, .file old)) ∧
        (d' = d ∨ d' = d.put S (.file bytes)) := by
  unfold write at h
  split at h
  · cases h
  obtain ⟨e, hlocate, h⟩ := bind_eq_ok_iff.1 h
  by_cases hname : (e.name.isNone || e.slash) = true
  · rw [if_pos hname] at h
    cases h
  rw [if_neg hname] at h
  obtain ⟨hsome, hslash⟩ : e.name.isSome = true ∧ e.slash = false := by
    simpa [Option.isNone_iff_eq_none, Option.isSome_iff_ne_none] using hname
  obtain ⟨there, hlookup, h⟩ := bind_eq_ok_iff.1 h
  obtain ⟨hlength, hthere⟩ := of_lookup_eq_ok hlookup
  have hlink := (locate_eq_ok_iff.1 hlocate).2.not_link hsome
  have hfound (old : ByteArray) (hold : d.node? e.route = some (.file old)) :
      d.resolve p = .ok (e.route, .file old) :=
    bind_eq_ok_iff.2 ⟨e, hlocate, arrive_eq_ok rfl hold hlength (Or.inr ⟨hslash, hsome⟩)⟩
  have hplain (hdirectory : there ≠ some .directory) (node : Node)
      (hnode : d.node? e.route = some node) : ¬ node.Guides := by
    cases node with
    | directory => exact absurd (hthere.symm.trans hnode) hdirectory
    | link target => exact absurd hnode (hlink target)
    | file old => exact id
    | sink => exact id
  split at h
  · cases h
  · cases h
    exact ⟨e.route, hplain (by simp), hfound, Or.inl rfl⟩
  · rename_i hdirectory _
    cases h
    exact ⟨e.route, hplain (fun heq => hdirectory heq), hfound, Or.inr rfl⟩

end Disk

namespace Workbench

open Disk

variable {d : Disk} {p : Path} {R : Route} {bytes : ByteArray}

theorem writeIfPossible_cases (d : Disk) (file : Path × ByteArray) :
    writeIfPossible d file = d ∨
      ∃ S, writeIfPossible d file = d.put S (.file file.2) ∧
        (∀ there, d.node? S = some there → ¬ there.Guides) ∧
          ∀ old, d.node? S = some (.file old) → d.resolve file.1 = .ok (S, .file old) := by
  unfold writeIfPossible
  split
  · rename_i d' hwrite
    obtain ⟨S, hplain, hfound, hsame | hput⟩ := write_cases hwrite
    · exact Or.inl hsame
    · exact Or.inr ⟨S, hput, hplain, hfound⟩
  · exact Or.inl rfl

theorem alike_writeIfPossible (d : Disk) (file : Path × ByteArray) :
    Alike d (writeIfPossible d file) := by
  rcases writeIfPossible_cases d file with hsame | ⟨S, hput, hplain, _⟩
  · rw [hsame]
    exact Alike.refl d
  · rw [hput]
    exact alike_put id hplain

/-- One of the writes goes to the file to which the path leads by then. -/
def Rewrites (p : Path) : Disk → List (Path × ByteArray) → Prop
  | _, [] => False
  | d, file :: rest => d.resolve file.1 = d.resolve p ∨ Rewrites p (writeIfPossible d file) rest

/-- A write leaves a file as it is, or goes to it. -/
theorem exists_bytes_of_write (h : EndsAt d p R) (hnode : d.node? R = some (.file bytes))
    (file : Path × ByteArray) :
    ∃ bytes', (writeIfPossible d file).node? R = some (.file bytes') ∧
      (bytes' = bytes ∨ d.resolve file.1 = d.resolve p) := by
  rcases writeIfPossible_cases d file with hsame | ⟨S, hput, _, hfound⟩
  · rw [hsame]
    exact ⟨bytes, hnode, Or.inl rfl⟩
  · rw [hput, node?_put]
    by_cases hroute : R = S
    · subst hroute
      refine ⟨file.2, if_pos ⟨h.ne_nil, rfl⟩, Or.inr ?_⟩
      rw [hfound bytes hnode, resolve_of_endsAt h hnode]
    · exact ⟨bytes, (if_neg fun heq => hroute heq.2).trans hnode, Or.inl rfl⟩

/-- While files are written a file stays where it is, with its bytes unless one of the writes
goes to it. -/
theorem exists_bytes_of_writes (h : EndsAt d p R) (hnode : d.node? R = some (.file bytes))
    (writes : List (Path × ByteArray)) :
    EndsAt (writes.foldl writeIfPossible d) p R ∧
      ∃ bytes', (writes.foldl writeIfPossible d).node? R = some (.file bytes') ∧
        (bytes' = bytes ∨ Rewrites p d writes) := by
  induction writes generalizing d bytes with
  | nil => exact ⟨h, bytes, hnode, Or.inl rfl⟩
  | cons file writes ih =>
      obtain ⟨next, hnext, hfirst⟩ := exists_bytes_of_write h hnode file
      have hthere := h.of_guides (alike_writeIfPossible d file).forth
      obtain ⟨hend, last, hlast, hrest⟩ := ih hthere hnext
      refine ⟨hend, last, hlast, ?_⟩
      rcases hrest with rfl | hrest
      · exact hfirst.imp_right Or.inl
      · exact Or.inr (Or.inr hrest)

theorem removeFile_of_endsAt (hremove : d.refuses (.remove p) = none) (h : EndsAt d p R)
    (hnode : d.node? R = some (.file bytes)) : removeFile d p = d.drop R := by
  rcases removeFile_cases hremove with ⟨hfile, _⟩ | ⟨S, hend, hdropped, _⟩
  · rw [isFile_of_endsAt h hnode] at hfile
    cases hfile
  · rw [hdropped, hend.unique h]

/-- At the entry of the path is a file, or nothing. -/
structure Reserved (d : Disk) (p : Path) (R : Route) : Prop where
  entry : EndsAt d p R
  plain : ∀ node, d.node? R = some node → ∃ bytes, node = .file bytes

namespace Reserved

theorem writeIfPossible (h : Reserved d p R) (file : Path × ByteArray) :
    Reserved (writeIfPossible d file) p R := by
  refine ⟨h.entry.of_guides (alike_writeIfPossible d file).forth, fun node hnode => ?_⟩
  rcases writeIfPossible_cases d file with hsame | ⟨S, hput, _, _⟩
  · rw [hsame] at hnode
    exact h.plain node hnode
  · rw [hput, node?_put] at hnode
    split at hnode
    · exact ⟨file.2, (Option.some.inj hnode).symm⟩
    · exact h.plain node hnode

theorem writes (h : Reserved d p R) (writes : List (Path × ByteArray)) :
    Reserved (writes.foldl Workbench.writeIfPossible d) p R := by
  induction writes generalizing d with
  | nil => exact h
  | cons file writes ih => exact ih (h.writeIfPossible file)

theorem removeFile (h : Reserved d p R) (q : Path) : Reserved (removeFile d q) p R := by
  refine ⟨?_, fun node hnode => h.plain node ((within_removeFile d q).nodes R node hnode)⟩
  cases hrefuses : d.refuses (.remove q) with
  | none => exact endsAt_removeFile hrefuses h.entry
  | some fault =>
      have hsame : Workbench.removeFile d q = d := by simp [Workbench.removeFile, remove, hrefuses]
      rw [hsame]
      exact h.entry

theorem removeFiles (h : Reserved d p R) (files : List Path) :
    Reserved (removeFiles d files) p R := by
  induction files generalizing d with
  | nil => exact h
  | cons q files ih => exact ih (h.removeFile q)

theorem node?_removeFile (h : Reserved d p R) (hremove : d.refuses (.remove p) = none) :
    (Workbench.removeFile d p).node? R = none := by
  have hkept := h.removeFile p
  cases hnode : (Workbench.removeFile d p).node? R with
  | none => rfl
  | some node =>
      obtain ⟨bytes, rfl⟩ := hkept.plain node hnode
      have hfile := isFile_of_endsAt hkept.entry hnode
      rw [not_isFile_removeFile hremove] at hfile
      cases hfile

theorem find?_removeFile (h : Reserved d p R) (hremove : d.refuses (.remove p) = none) :
    (Workbench.removeFile d p).find? p = none := by
  have hgone := not_holds_of_endsAt (h.removeFile p).entry (h.node?_removeFile hremove)
  simpa [holds] using hgone

end Reserved

end Workbench

end Montage
