import Montage.Proofs.Disk.Replacing
import Montage.Proofs.Playlist.Following

/-!
# The list of files while they are renamed

Whoever renames segments has a list of their paths, and deletes by it what is left over. So at
whatever step a renaming fails, its list should say where each segment is
(`placed_renameSegments`). It does if every goal is a place of its own (`AreApart`).

A step at most removes what is at its goal and then moves its segment there
(`clear_cases_of_replaceable`, `of_move`). Both leave the other paths of the list alone, since
none of them has its entry at the goal and none leads on through what is there.
-/

namespace Montage.Playlist

open Disk Renaming

/-- No path leads on through a link at a goal. -/
def AreReplaceable (d : Disk) (files : List Path) (moves : List (Nat × String)) : Prop :=
  ∀ move ∈ moves, ∀ segment ∈ renamed? files move, Replaceable d (target segment move.2)

theorem areReplaceable_of_not_isLink {d : Disk} {files : List Path} {moves : List (Nat × String)}
    (h : ∀ move ∈ moves, ∀ segment ∈ renamed? files move,
      ∀ node ∈ d.nodeAt? (target segment move.2), ¬ node.IsLink) : AreReplaceable d files moves :=
  fun move hmove segment hsegment => replaceable_of_not_isLink (h move hmove segment hsegment)

/-- Each goal can be replaced, is no playlist, and is neither another goal nor the place of
another file in the list. -/
structure AreApart (d : Disk) (files : List Path) (moves : List (Nat × String)) : Prop where
  playlist : ∀ move ∈ moves, ∀ segment ∈ renamed? files move,
    isPlaylist (target segment move.2) = false
  replaceable : AreReplaceable d files moves
  file : ∀ move ∈ moves, ∀ segment ∈ renamed? files move, ∀ p ∈ files.eraseIdx move.1,
    ¬ SharesEntry d (target segment move.2) p
  goal : ∀ move ∈ moves, ∀ segment ∈ renamed? files move,
    ∀ other ∈ moves, ∀ sibling ∈ renamed? files other, other.1 ≠ move.1 →
      ¬ SharesEntry d (target segment move.2) (target sibling other.2)

/-- Where the list says that the file is which was at the entry `S` of a path. -/
inductive Placed (d : Disk) (moves : List (Nat × String)) (r : Renaming) (i : Nat) (p : Path)
    (S : Route) (bytes : ByteArray) : Prop where
  | kept (list : r.files[i]? = some p) (file : r.disk.node? S = some (.file bytes))
  | moved (suffix : String) (T : Route) (mem : (i, suffix) ∈ moves)
      (other : (target p suffix).same p = false) (list : r.files[i]? = some (target p suffix))
      (goal : EndsAt d (target p suffix) T) (file : r.disk.node? T = some (.file bytes))
      (left : r.disk.node? S = none)

structure HasPlaced (d : Disk) (files : List Path) (moves : List (Nat × String)) (r : Renaming) :
    Prop where
  entries : SameEntries d r.disk
  playlists : r.files.filter isPlaylist = files.filter isPlaylist
  placed : ∀ i p S bytes, files[i]? = some p → EndsAt d p S → d.node? S = some (.file bytes) →
    Placed d moves r i p S bytes

section Step

variable {d d' cleared : Disk} {segment goal : Path} {S : Route}

/-- No file is left at a goal that was cleared. A link that leads nowhere is. -/
theorem not_endsAt_of_clear {bytes : ByteArray} (hgoal : Replaceable d goal)
    (h : clear d goal = .ok cleared) (hfile : cleared.node? S = some (.file bytes)) :
    ¬ EndsAt d goal S := by
  intro hS
  rcases clear_cases_of_replaceable hgoal h with ⟨hholds, rfl⟩ | ⟨T, hT, rfl, _⟩
  · rw [holds_of_endsAt hS hfile] at hholds
    cases hholds
  · rw [hT.unique hS, node?_drop, if_pos ⟨hS.ne_nil, rfl⟩] at hfile
    cases hfile

theorem of_move (hS : EndsAt d segment S)
    (hfile : ∀ node, d.node? S = some node → ∃ bytes, node = .file bytes)
    (hgoal : Replaceable d goal) (hclear : clear d goal = .ok cleared)
    (hrename : cleared.rename segment goal = .ok d') :
    SameEntries d d' ∧ ∃ T bytes, EndsAt d goal T ∧ T ≠ S ∧ d.node? S = some (.file bytes) ∧
      ∀ R, d'.node? R = if R = T then some (.file bytes) else if R = S then none else d.node? R := by
  obtain ⟨hsame, hnodes⟩ := sameEntries_of_clear hgoal hclear
  have hfound : ∀ node, cleared.node? S = some node → d.node? S = some node := by
    intro node hnode
    rcases hnodes S with heq | ⟨_, hnone⟩
    · rwa [← heq]
    · rw [hnone] at hnode
      cases hnode
  have hplain : ∀ there, cleared.node? S = some there → ¬ there.Guides := by
    intro there hthere
    obtain ⟨bytes, rfl⟩ := hfile there (hfound there hthere)
    exact id
  obtain ⟨hmoved, T, node, hT, hnode, hmap⟩ := sameEntries_of_rename hrename (hsame.forth _ _ hS)
    hplain (hgoal.of_sameEntries hsame)
  obtain ⟨bytes, rfl⟩ := hfile node (hfound node hnode)
  replace hT := hsame.endsAt_iff.1 hT
  refine ⟨hsame.trans hmoved, T, bytes, hT, ?_, hfound _ hnode, fun R => ?_⟩
  · rintro rfl
    exact not_endsAt_of_clear hgoal hclear hnode hT
  · rw [hmap]
    split_ifs with hRT
    · rfl
    · rfl
    · exact (hnodes R).resolve_right fun hR => hRT (hR.1.unique hT)

/-- A goal with a suffix in a segment's own directory is another entry. -/
theorem ne_of_endsAt_target {files : List Path} {move : Nat × String} {T : Route}
    (hsegment : renamed? files move = some segment) (hslash : '/' ∉ move.2.toList)
    (hS : EndsAt d segment S) (hT : EndsAt d (target segment move.2) T) : T ≠ S := by
  rintro rfl
  obtain ⟨name, hname, _, _, hlast⟩ := hS.leads.exists_last
  obtain ⟨new, hnew, _, hlast'⟩ := hT.leads.exists_last_of_join
  have hplain : '/' ∉ (suffixed name move.2).toList :=
    not_mem_suffixed (slash_not_mem_fileName hname) hslash
  have hstem : segment.stem ++ move.2 = suffixed name move.2 := by
    rw [Path.stem, hname]
    rfl
  rw [hstem, Path.pieces_of_not_mem hplain, List.getLast?_singleton] at hnew
  rw [hlast, ← hnew] at hlast'
  exact suffixed_ne_of_renamed hS hname hsegment (Option.some.inj hlast').symm

end Step

section Run

variable {d : Disk} {files : List Path} {moves : List (Nat × String)} {r r' : Renaming}
  {move : Nat × String} {segment p : Path} {S : Route} {bytes : ByteArray} {i : Nat}

/-- A file stays where it is as long as its place in the list and the two entries that it can have
stay as they are. -/
theorem Placed.of_nodes (h : Placed d moves r i p S bytes) (hlist : r'.files[i]? = r.files[i]?)
    (hS : r'.disk.node? S = r.disk.node? S)
    (hgoal : ∀ suffix T, (i, suffix) ∈ moves → (target p suffix).same p = false →
      EndsAt d (target p suffix) T → r'.disk.node? T = r.disk.node? T) :
    Placed d moves r' i p S bytes := by
  cases h with
  | kept list file => exact Placed.kept (hlist.trans list) (hS.trans file)
  | moved suffix T mem other list goal file left =>
    exact Placed.moved suffix T mem other (hlist.trans list) goal
      ((hgoal suffix T mem other goal).trans file) (hS.trans left)

theorem Placed.file_of_list (h : Placed d moves r i p S bytes) (hold : r.files[i]? = some p) :
    r.disk.node? S = some (.file bytes) := by
  cases h with
  | kept _ file => exact file
  | moved suffix _ _ other list =>
    have hgoal := Option.some.inj (list.symm.trans hold)
    rw [hgoal, Path.same_refl] at other
    cases other

theorem HasPlaced.of_nodes (hfiles : AreFiles d files) (hapart : AreApart d files moves)
    (h : HasPlaced d files moves r) (hmem : move ∈ moves)
    (hsegment : renamed? files move = some segment)
    (hentries : SameEntries r.disk r'.disk) (hlist : ∀ i ≠ move.1, r'.files[i]? = r.files[i]?)
    (hplaylists : r'.files.filter isPlaylist = r.files.filter isPlaylist)
    (hnodes : ∀ R, ¬ EndsAt d (target segment move.2) R → ¬ EndsAt d segment R →
      r'.disk.node? R = r.disk.node? R)
    (hown : ∀ S bytes, EndsAt d segment S → d.node? S = some (.file bytes) →
      Placed d moves r' move.1 segment S bytes) : HasPlaced d files moves r' := by
  refine ⟨h.entries.trans hentries, hplaylists.trans h.playlists, fun i p S bytes hp hS hfile => ?_⟩
  have hindex := (renamed?_eq_some_iff.1 hsegment).1
  by_cases hi : i = move.1
  · subst hi
    obtain rfl : p = segment := Option.some.inj (hp.symm.trans hindex)
    exact hown S bytes hS hfile
  · refine (h.placed i p S bytes hp hS hfile).of_nodes (hlist i hi) ?_
      fun suffix R hsibling hsame hR => ?_
    · have hlisted := List.mem_eraseIdx_iff_getElem?.2 ⟨i, hi, hp⟩
      exact hnodes S (fun hT => hapart.file move hmem segment hsegment p hlisted ⟨S, hT, hS⟩)
        fun hS' => hfiles.ne hp hindex hi hS hS' rfl
    · have hrenamed : renamed? files (i, suffix) = some p := renamed?_eq_some_iff.2 ⟨hp, hsame⟩
      have hlisted := List.mem_eraseIdx_iff_getElem?.2 ⟨move.1, Ne.symm hi, hindex⟩
      exact hnodes R
        (fun hT => hapart.goal move hmem segment hsegment _ hsibling p hrenamed hi ⟨R, hT, hR⟩)
        fun hS' => hapart.file _ hsibling p hrenamed segment hlisted ⟨R, hR, hS'⟩

theorem HasPlaced.of_clear (hfiles : AreFiles d files) (hapart : AreApart d files moves)
    (hslash : '/' ∉ move.2.toList) (h : HasPlaced d files moves r) (hmem : move ∈ moves)
    (hindex : r.files[move.1]? = some segment) (hsegment : renamed? files move = some segment)
    {cleared : Disk} (hclear : Renaming.clear r.disk (target segment move.2) = .ok cleared) :
    HasPlaced d files moves { r with disk := cleared } := by
  have hgoal := (hapart.replaceable move hmem segment hsegment).of_sameEntries h.entries
  obtain ⟨hsame, hnodes⟩ := sameEntries_of_clear hgoal hclear
  have hkept (R : Route) (hR : ¬ EndsAt d (target segment move.2) R) :
      cleared.node? R = r.disk.node? R :=
    (hnodes R).resolve_right fun hT => hR (h.entries.endsAt_iff.1 hT.1)
  refine h.of_nodes hfiles hapart hmem hsegment hsame (fun _ _ => rfl) rfl
    (fun R hR _ => hkept R hR) fun S bytes hS hfile => Placed.kept hindex ?_
  rw [hkept S fun hT => ne_of_endsAt_target hsegment hslash hS hT rfl]
  exact (h.placed _ _ _ _ (renamed?_eq_some_iff.1 hsegment).1 hS hfile).file_of_list hindex

theorem HasPlaced.of_rename (hfiles : AreFiles d files) (hapart : AreApart d files moves)
    (hkind : isPlaylist segment = false) (h : HasPlaced d files moves r) (hmem : move ∈ moves)
    (hindex : r.files[move.1]? = some segment) (hsegment : renamed? files move = some segment)
    {cleared d' : Disk} (hclear : Renaming.clear r.disk (target segment move.2) = .ok cleared)
    (hrename : cleared.rename segment (target segment move.2) = .ok d') (names : NewNames) :
    HasPlaced d files moves
      { files := r.files.set move.1 (target segment move.2), names, disk := d' } := by
  obtain ⟨hold, hother⟩ := renamed?_eq_some_iff.1 hsegment
  have hgoal := (hapart.replaceable move hmem segment hsegment).of_sameEntries h.entries
  have hnow (S : Route) (bytes : ByteArray) (hS : EndsAt d segment S)
      (hfile : d.node? S = some (.file bytes)) : r.disk.node? S = some (.file bytes) :=
    (h.placed _ _ _ _ hold hS hfile).file_of_list hindex
  obtain ⟨S, bytes, hS, hfile⟩ := hfiles.file segment (List.mem_of_getElem? hold)
  obtain ⟨hsame, T, bytes', hT, hne, hfile', hmap⟩ := of_move (h.entries.forth _ _ hS)
    (fun node hnode => ⟨bytes, Option.some.inj (hnode.symm.trans (hnow S bytes hS hfile))⟩)
    hgoal hclear hrename
  replace hT := h.entries.endsAt_iff.1 hT
  have hbound := (List.getElem?_eq_some_iff.1 hindex).1
  refine h.of_nodes hfiles hapart hmem hsegment hsame (fun i hi => List.getElem?_set_ne hi.symm)
    (filter_set_of_false hindex hkind (hapart.playlist move hmem segment hsegment))
    (fun R hRT hRS => ?_) fun S' bytes'' hS' hfile'' => ?_
  · have hRT : R ≠ T := fun heq => hRT (heq ▸ hT)
    have hRS : R ≠ S := fun heq => hRS (heq ▸ hS)
    rw [hmap, if_neg hRT, if_neg hRS]
  · obtain rfl := hS.unique hS'
    cases hfile'.symm.trans (hnow S _ hS' hfile'')
    refine Placed.moved move.2 T hmem hother (List.getElem?_set_self hbound) hT ?_ ?_
    · rw [hmap, if_pos rfl]
    · rw [hmap, if_neg hne.symm, if_pos rfl]

theorem Placed.kept_of_isPlaylist (h : Placed d moves r i p S bytes)
    (hkind : ∀ move ∈ moves, ∀ p, files[move.1]? = some p → isPlaylist p = false)
    (hp : files[i]? = some p) (hplaylist : isPlaylist p = true) :
    r.files[i]? = some p ∧ r.disk.node? S = some (.file bytes) := by
  cases h with
  | kept list file => exact ⟨list, file⟩
  | moved suffix _ mem =>
    rw [hkind _ mem p hp] at hplaylist
    cases hplaylist

theorem HasPlaced.renewFiles (hfiles : AreFiles d files) (hapart : AreApart d files moves)
    (hkind : ∀ move ∈ moves, ∀ p, files[move.1]? = some p → isPlaylist p = false)
    (h : HasPlaced d files moves r) (names : NewNames) {d' : Disk}
    (hd' : d' = (renewFiles names r.disk (r.files.filter isPlaylist)).1) :
    SameEntries d d' ∧ ∀ i p S bytes, files[i]? = some p → isPlaylist p = false →
      EndsAt d p S → d.node? S = some (.file bytes) →
        Placed d moves { r with disk := d' } i p S bytes := by
  have hplaylists : AreFiles r.disk (files.filter isPlaylist) := by
    refine (hfiles.sublist List.filter_sublist).of_sameEntries h.entries
      fun q hq R hR bytes hnode => ⟨bytes, ?_⟩
    obtain ⟨hmem, hplaylist⟩ := List.mem_filter.1 hq
    obtain ⟨j, hj⟩ := List.mem_iff_getElem?.1 hmem
    exact ((h.placed j q R bytes hj hR hnode).kept_of_isPlaylist hkind hj hplaylist).2
  obtain ⟨halike, hnodes⟩ := @alike_renewFiles names _ _ hplaylists
  rw [← h.playlists, ← hd'] at halike hnodes
  have hother {q : Path} {R : Route} (hR : EndsAt d q R) (hq : isPlaylist q = false) :
      d'.node? R = r.disk.node? R := by
    refine hnodes R fun playlist hmem hR' => ?_
    exact ne_of_isPlaylist (h.entries.endsAt_iff.1 hR') hR (List.mem_filter.1 hmem).2 hq rfl
  refine ⟨h.entries.trans halike.sameEntries, fun i p S bytes hp hsegment hS hfile => ?_⟩
  refine (h.placed i p S bytes hp hS hfile).of_nodes rfl (hother hS hsegment) ?_
  intro suffix T hmem hsame hT
  exact hother hT (hapart.playlist _ hmem p (renamed?_eq_some_iff.2 ⟨hp, hsame⟩))

end Run

end Montage.Playlist
