import Montage.Proofs.Disk.Renaming

/-!
# Replacing files

Two disks have the `SameEntries` if every path ends at the same entry on both. Removing a file
keeps the entries, and so does putting one where no path leads on: where nothing was, where a
file was, or where a link was that no walk goes through. A path at which such a place, or a
directory, is found is `Replaceable`.
-/

namespace Montage.Disk

variable {d d' d'' : Disk} {p : Path} {R S T : Route} {node : Node}

def SharesEntry (d : Disk) (p q : Path) : Prop := ∃ R, EndsAt d p R ∧ EndsAt d q R

theorem sharesEntry_iff {q : Path} :
    SharesEntry d p q ↔ ∃ R ∈ d.entry? p, d.entry? q = some R := by
  simp only [SharesEntry, Option.mem_def, entry?_eq_some_iff]

instance (d : Disk) (p q : Path) : Decidable (SharesEntry d p q) :=
  decidable_of_iff _ sharesEntry_iff.symm

/-- Every path ends at the same entry on both disks, and the second one has no more directories
and links. -/
structure SameEntries (d d' : Disk) : Prop where
  forth : ∀ p R, EndsAt d p R → EndsAt d' p R
  back : Guides d' d

namespace SameEntries

theorem refl (d : Disk) : SameEntries d d := ⟨fun _ _ h => h, (Within.refl d).guides⟩

theorem trans (h : SameEntries d d') (h' : SameEntries d' d'') : SameEntries d d'' :=
  ⟨fun p R hend => h'.forth p R (h.forth p R hend), h'.back.trans h.back⟩

theorem endsAt_iff (h : SameEntries d d') : EndsAt d' p R ↔ EndsAt d p R :=
  ⟨EndsAt.of_guides h.back, h.forth p R⟩

end SameEntries

theorem Alike.sameEntries (h : Alike d d') : SameEntries d d' :=
  ⟨fun _ _ hend => hend.of_guides h.forth, h.back⟩

theorem sameEntries_drop (hlast : IsLast d R) : SameEntries d (d.drop R) :=
  ⟨fun _ _ hend => hend.drop hlast, (within_drop d R).guides⟩

theorem guides_put (hnode : ¬ node.Guides) : Guides (d.put R node) d := by
  refine ⟨rfl, fun S there hguides hS => ?_⟩
  rw [node?_put] at hS
  split at hS
  · cases hS
    exact absurd hguides hnode
  · exact hS

/-- Whatever is put where no path leads on, paths end where they ended. -/
theorem EndsAt.put (hlast : IsLast d R) (h : EndsAt d p S) (node : Node) :
    EndsAt (d.put R node) p S := by
  -- the place is empty once what was there is dropped
  have hdropped : Guides (d.drop R) (d.put R node) := by
    refine ⟨rfl, fun S there _ hS => ?_⟩
    rw [node?_drop] at hS
    rw [node?_put]
    split at hS
    · cases hS
    · rename_i hother
      rwa [if_neg hother]
  exact (h.drop hlast).of_guides hdropped

theorem sameEntries_put (hlast : IsLast d R) (hnode : ¬ node.Guides) :
    SameEntries d (d.put R node) :=
  ⟨fun _ _ hend => hend.put hlast node, guides_put hnode⟩

theorem isLast_of_none (h : d.node? R = none) : IsLast d R :=
  ⟨by simp [h], by simp [h]⟩

theorem IsLast.of_guides (hdisks : Guides d' d) (h : IsLast d R) : IsLast d' R := by
  constructor
  · exact fun hdirectory => h.directory (hdisks.nodes R _ trivial hdirectory)
  · intro target hlink rest hrest n e hwalk
    exact h.link target (hdisks.nodes R _ trivial hlink) rest hrest n e (hwalk.of_guides hdisks)

/-- No path leads on through what is at the end of a path, unless it is a directory. -/
def Replaceable (d : Disk) (p : Path) : Prop :=
  ∀ R, EndsAt d p R → d.node? R = some .directory ∨ IsLast d R

theorem replaceable_of_not_isLink (h : ∀ node ∈ d.nodeAt? p, ¬ node.IsLink) : Replaceable d p := by
  intro R hend
  rw [nodeAt?_of_endsAt hend] at h
  cases hnode : d.node? R with
  | none => exact Or.inr (isLast_of_none hnode)
  | some node =>
    have hlink := h node hnode
    cases node with
    | directory => exact Or.inl rfl
    | link target => exact absurd trivial hlink
    | file bytes => exact Or.inr (isLast_of_plain hnode id)
    | sink => exact Or.inr (isLast_of_plain hnode id)

theorem Replaceable.of_sameEntries (hdisks : SameEntries d d') (h : Replaceable d p) :
    Replaceable d' p := by
  intro R hend
  have hdone := h R (hdisks.endsAt_iff.1 hend)
  cases hnode : d'.node? R with
  | none => exact Or.inr (isLast_of_none hnode)
  | some node =>
    cases node with
    | directory => exact Or.inl rfl
    | link target =>
      have hlink := hdisks.back.nodes R (.link target) trivial hnode
      exact Or.inr ((hdone.resolve_left (by simp [hlink])).of_guides hdisks.back)
    | file bytes => exact Or.inr (isLast_of_plain hnode id)
    | sink => exact Or.inr (isLast_of_plain hnode id)

/-- Paths end where they ended, when what no path leads on through is renamed to a replaceable
path. -/
theorem exists_of_rename_isLast {old new : Path} (h : d.rename old new = .ok d')
    (hold : ∀ e, d.locate false old = .ok e → IsLast d e.route) (hnew : Replaceable d new) :
    ∃ S T node, EndsAt d old S ∧ EndsAt d new T ∧ d' = (d.drop S).put T node ∧
      ∀ p R, EndsAt d p R → EndsAt d' p R := by
  have hother : d.nodeAt? old ≠ some .directory := by
    intro hdirectory
    unfold nodeAt? at hdirectory
    split at hdirectory
    · rename_i e hlocate
      exact (hold e hlocate).directory hdirectory
    · cases hdirectory
  obtain ⟨S, T, node, hS, hT, _, hdirectory, rfl⟩ := exists_move_of_rename h hother
  have hlastS : IsLast d S := by
    obtain ⟨e, hlocate, rfl, _⟩ := hS
    exact hold e hlocate
  have hlastT : IsLast (d.drop S) T :=
    ((hnew T hT).resolve_left hdirectory).of_guides (within_drop d S).guides
  exact ⟨S, T, node, hS, hT, rfl, fun p R hend => (hend.drop hlastS).put hlastT node⟩

theorem holds_of_endsAt (h : EndsAt d p R) {bytes : ByteArray}
    (hnode : d.node? R = some (.file bytes)) : d.holds p = true := by
  rw [holds, find?_of_endsAt h hnode]
  rfl

theorem not_holds_of_endsAt (h : EndsAt d p R) (hnone : d.node? R = none) : d.holds p = false := by
  obtain ⟨e, hlocate, rfl, _, _, hlength⟩ := h
  obtain ⟨hfault, hwalk⟩ := locate_eq_ok_iff.1 hlocate
  have hfollowed := locate_eq_ok_iff.2 ⟨hfault, hwalk.followed (by simp [hnone])⟩
  have hlookup : d.lookup e = .ok none := by rw [lookup_eq_ok hlength, hnone]
  simp [holds, find?, resolve, arrive, hfollowed, hlookup, bind, Except.bind, Except.toOption,
    throw, throwThe, MonadExceptOf.throw]

/-- A file that is renamed to a replaceable path leaves its entry and takes the place of whatever
was at the other one. -/
theorem sameEntries_of_rename {old new : Path} (h : d.rename old new = .ok d')
    (hS : EndsAt d old S) (hplain : ∀ there, d.node? S = some there → ¬ there.Guides)
    (hnew : Replaceable d new) :
    SameEntries d d' ∧ ∃ T node, EndsAt d new T ∧ d.node? S = some node ∧
      ∀ R, d'.node? R = if R = T then some node else if R = S then none else d.node? R := by
  obtain ⟨S', T, node, hS', hT, hnode, hdirectory, rfl⟩ :=
    exists_move_of_rename h fun hdirectory =>
      hplain _ ((nodeAt?_of_endsAt hS).symm.trans hdirectory) trivial
  obtain rfl := hS.unique hS'
  have hguides := hplain node hnode
  have hdropped : SameEntries d (d.drop S) := sameEntries_drop (isLast_of_plain hnode hguides)
  have hlast := ((hnew T hT).resolve_left hdirectory).of_guides hdropped.back
  refine ⟨hdropped.trans (sameEntries_put hlast hguides), T, node, hT, hnode, fun R => ?_⟩
  have hapart : R = T → R ≠ [] := fun heq => heq ▸ hT.ne_nil
  have hleft : R = S → R ≠ [] := fun heq => heq ▸ hS.ne_nil
  simp only [node?_put, node?_drop, and_iff_right_of_imp hapart, and_iff_right_of_imp hleft]

end Montage.Disk
