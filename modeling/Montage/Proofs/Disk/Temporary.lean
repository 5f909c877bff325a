import Montage.Proofs.Disk.Refusal

/-!
# What is new behind a temporary file

Making a temporary file leaves all that was there. New are the file itself, where
nothing was, and directories above it: a disk is `Furnished` if directories are all
that it has got. That is said of each way to make directories first, and last of
the temporary file, `exists_of_createTemporary`.
-/

namespace Montage.Disk

variable {d d' : Disk} {p : Path} {R : Route}

/-- The second disk is the first one with more directories. -/
structure Furnished (d d' : Disk) : Prop where
  within : Within d d'
  added : ∀ R node, d'.node? R = some node → d.node? R = some node ∨ node = .directory

namespace Furnished

theorem refl (d : Disk) : Furnished d d := ⟨Within.refl d, fun _ _ h => Or.inl h⟩

theorem trans {d'' : Disk} (h : Furnished d d') (h' : Furnished d' d'') : Furnished d d'' := by
  refine ⟨h.within.trans h'.within, fun R node hnode => ?_⟩
  rcases h'.added R node hnode with hnode | hdirectory
  · exact h.added R node hnode
  · exact Or.inr hdirectory

theorem congr {d'' : Disk} (h : Furnished d d')
    (hstart : d''.workingDirectory = d'.workingDirectory) (hnodes : ∀ R, d''.node? R = d'.node? R) :
    Furnished d d'' := by
  constructor
  · refine ⟨hstart.trans h.within.start, fun R node hnode => ?_⟩
    rw [hnodes]
    exact h.within.nodes R node hnode
  · intro R node hnode
    rw [hnodes] at hnode
    exact h.added R node hnode

end Furnished

theorem furnished_put (h : d.node? R = none) : Furnished d (d.put R .directory) := by
  constructor
  · refine ⟨rfl, fun S node hnode => ?_⟩
    rw [node?_put, if_neg ?_]
    · exact hnode
    · rintro ⟨_, rfl⟩
      rw [h] at hnode
      cases hnode
  · intro S node hnode
    rw [node?_put] at hnode
    split at hnode
    · exact Or.inr (Option.some.inj hnode).symm
    · exact Or.inl hnode

theorem furnished_makeDirectory (h : d.makeDirectory p = .ok d') : Furnished d d' := by
  unfold makeDirectory at h
  split at h
  · cases h
  obtain ⟨e, _, h⟩ := bind_eq_ok_iff.1 h
  obtain ⟨there, hlookup, h⟩ := bind_eq_ok_iff.1 h
  split at h
  · cases h
  · cases h
    exact furnished_put (of_lookup_eq_ok hlookup).2

theorem furnished_ensureDirectory (h : d.ensureDirectory p = .ok d') : Furnished d d' := by
  unfold ensureDirectory at h
  split at h
  · rename_i made hmake
    cases h
    exact furnished_makeDirectory hmake
  · split at h
    · cases h
      exact Furnished.refl d
    · cases h

theorem furnished_makeEntry {here : Route} {name : String} (hfree : d.node? (here ++ [name]) = none)
    (h : d.makeEntry here name = .ok d') : Furnished d d' := by
  simp only [makeEntry] at h
  split at h
  · cases h
  · split at h
    · cases h
    · cases h
      exact furnished_put hfree

theorem furnished_makeChain {here : Route} {steps : List String}
    (h : d.makeChain here steps = .ok d') : Furnished d d' := by
  fun_induction makeChain d here steps with
  | case1 =>
      cases h
      exact Furnished.refl _
  | case2 | case3 | case4 | case5 =>
      rename_i ih
      exact ih h
  | case6 => cases h
  | case7 =>
      rename_i hfree made hmake ih
      exact (furnished_makeEntry hfree hmake).trans (ih h)
  | case8 => cases h

theorem furnished_makeDirectories (h : d.makeDirectories p = .ok d') : Furnished d d' := by
  unfold makeDirectories at h
  split at h
  · cases h
    exact Furnished.refl d
  · split at h
    · obtain ⟨made, hchain, h⟩ := bind_eq_ok_iff.1 h
      exact (furnished_makeChain hchain).trans (furnished_ensureDirectory h)
    · exact furnished_ensureDirectory h

theorem rooted_of_start (h : d'.workingDirectory = d.workingDirectory) (directory : Path) :
    d'.rooted directory = d.rooted directory := by
  rw [rooted, rooted, cwd, cwd, h]

theorem furnished_drop_put (h : Furnished d d') (hnone : d'.node? R = none) (node : Node) :
    Furnished d ((d'.put R node).drop R) := by
  refine h.congr rfl fun S => ?_
  rw [node?_drop, node?_put]
  split
  · rename_i hroute
    rw [hroute.2, hnone]
  · rfl

theorem Furnished.drop_put (h : Furnished d (d'.drop R)) (node : Node) :
    Furnished d ((d'.put R node).drop R) := by
  refine h.congr rfl fun S => ?_
  rw [node?_drop, node?_put, node?_drop]
  split <;> rfl

/-- An empty temporary file is made where nothing was, and apart from it the disk is furnished. -/
theorem exists_of_createTemporary {start extension : String} {marks : List String} {made : Path}
    (h : d.createTemporary p start extension marks = .ok (made, d')) :
    ∃ R, (∃ mark ∈ marks, made = (d.rooted p).join ⟨temporaryName start extension mark⟩) ∧
      EndsAt d' made R ∧ d.node? R = none ∧ d'.node? R = some (.file .empty) ∧
        Furnished d (d'.drop R) := by
  obtain ⟨furnished, hdirectory, h⟩ := bind_eq_ok_iff.1 h
  have hfurnished := furnished_makeDirectories hdirectory
  rw [rooted_of_start hfurnished.within.start] at h
  dsimp only at h
  split at h
  · rename_i path hfind
    split at h
    · rename_i d2 hcreate
      cases h
      obtain ⟨R, hend, hnone, rfl⟩ := exists_of_create hcreate
      obtain ⟨mark, hmark, hpath⟩ := List.mem_map.1 (List.mem_of_find?_eq_some hfind)
      refine ⟨R, ⟨mark, hmark, hpath.symm⟩, ?_, ?_, ?_, furnished_drop_put hfurnished hnone _⟩
      · exact hend.of_guides (alike_put id (by simp [hnone])).forth
      · cases hthere : d.node? R with
        | none => rfl
        | some node =>
          rw [hfurnished.within.nodes R node hthere] at hnone
          cases hnone
      · rw [node?_put, if_pos ⟨hend.ne_nil, rfl⟩]
    · cases h
  · cases h

end Montage.Disk
