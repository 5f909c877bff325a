import Montage.Proofs.Disk.LastName
import Montage.Proofs.Disk.Refusal
import Montage.Proofs.Disk.Replacing
import Montage.Proofs.Playlist.Reference
import Montage.Proofs.Playlist.Renaming

/-!
# What a renaming leaves behind

A renaming that succeeds has moved its segments one by one and then renewed each playlist
once. `Tracks d files done r` says what is known when the moves `done` were made: the
directories and links and the playlists are as on the disk `d` at the start, the list has
the goals of the moves, and under each file name stands the suffix that came last
(`suffixesOf`). A move keeps this (`tracks_move`), and so do all of them (`tracks_steps`).

The playlists are files of their own, so each of them is renewed from the text that it had at
the start (`renewed_of_renameSegments`).
-/

namespace Montage.Playlist

open Disk Renaming

structure AreFiles (d : Disk) (files : List Path) : Prop where
  file : ∀ p ∈ files, ∃ R bytes, EndsAt d p R ∧ d.node? R = some (.file bytes)
  distinct : files.Pairwise fun p q => ∀ R, EndsAt d p R → ¬ EndsAt d q R

namespace AreFiles

variable {d d' : Disk} {files : List Path}

theorem of_entries {routes : List Route} (hfiles : files.map d.entry? = routes.map some)
    (hroutes : routes.Nodup) (hnodes : ∀ R ∈ routes, ∃ bytes, d.node? R = some (.file bytes)) :
    AreFiles d files := by
  constructor
  · intro p hp
    obtain ⟨R, hR, hentry⟩ := List.mem_map.1 (hfiles ▸ List.mem_map_of_mem hp)
    obtain ⟨bytes, hnode⟩ := hnodes R hR
    exact ⟨R, bytes, entry?_eq_some_iff.1 hentry.symm, hnode⟩
  · have hentries : (files.map d.entry?).Nodup := by
      rw [hfiles]
      exact List.pairwise_map.2 (hroutes.imp fun hne heq => hne (Option.some.inj heq))
    refine (List.pairwise_map.1 hentries).imp fun hne R hp hq => hne ?_
    rw [entry?_eq_some_iff.2 hp, entry?_eq_some_iff.2 hq]

theorem sublist {some : List Path} (h : AreFiles d files) (hsome : some.Sublist files) :
    AreFiles d some where
  file := fun p hp => h.file p (hsome.subset hp)
  distinct := h.distinct.sublist hsome

theorem of_sameEntries (h : AreFiles d files) (hdisks : SameEntries d d')
    (hnodes : ∀ p ∈ files, ∀ R, EndsAt d p R → ∀ bytes, d.node? R = some (.file bytes) →
      ∃ bytes, d'.node? R = some (.file bytes)) : AreFiles d' files := by
  constructor
  · intro p hp
    obtain ⟨R, bytes, hend, hnode⟩ := h.file p hp
    obtain ⟨bytes', hnode'⟩ := hnodes p hp R hend bytes hnode
    exact ⟨R, bytes', hdisks.forth p R hend, hnode'⟩
  · refine h.distinct.imp fun hpq R hp hq => ?_
    exact hpq R (hdisks.endsAt_iff.1 hp) (hdisks.endsAt_iff.1 hq)

theorem ne (h : AreFiles d files) {i j : Nat} {p q : Path} (hp : files[i]? = some p)
    (hq : files[j]? = some q) (hij : i ≠ j) {R S : Route} (hR : EndsAt d p R) (hS : EndsAt d q S) :
    R ≠ S := by
  rintro rfl
  obtain ⟨hi, rfl⟩ := List.getElem?_eq_some_iff.1 hp
  obtain ⟨hj, rfl⟩ := List.getElem?_eq_some_iff.1 hq
  have hdistinct := List.pairwise_iff_getElem.1 h.distinct
  rcases Nat.lt_or_gt_of_ne hij with hlt | hlt
  · exact hdistinct i j hi hj hlt R hR hS
  · exact hdistinct j i hj hi hlt R hS hR

end AreFiles

theorem isPlaylist_congr {p q : Path} (h : p.fileName? = q.fileName?) :
    isPlaylist p = isPlaylist q := by
  rw [isPlaylist, isPlaylist, Path.extension?, Path.extension?, h]

/-- A playlist and another file have different entries, since they have different names. -/
theorem ne_of_isPlaylist {d : Disk} {p q : Path} {R S : Route} (hp : EndsAt d p R)
    (hq : EndsAt d q S) (hplaylist : isPlaylist p = true) (hother : isPlaylist q = false) :
    R ≠ S := by
  rintro rfl
  have hname : p.fileName? = q.fileName? := by rw [hp.leads.getLast?_eq, hq.leads.getLast?_eq]
  rw [isPlaylist_congr hname, hother] at hplaylist
  cases hplaylist

def renamed? (files : List Path) (move : Nat × String) : Option Path :=
  files[move.1]?.filter fun segment => !(target segment move.2).same segment

theorem renamed?_eq_some_iff {files : List Path} {move : Nat × String} {segment : Path} :
    renamed? files move = some segment ↔
      files[move.1]? = some segment ∧ (target segment move.2).same segment = false := by
  simp [renamed?, Option.filter_eq_some_iff]

/-- The suffixes that the renamed segments with a file name get, one after the other. -/
def suffixesOf (files : List Path) (moves : List (Nat × String)) (name : String) : List String :=
  (moves.filter fun move => (renamed? files move).map Path.fileName = some name).map Prod.snd

/-- The suffix and the goal of a move change nothing that playlists and walks depend on. -/
structure IsPlainMove (d : Disk) (segment : Path) (suffix : String) : Prop where
  plain : IsPlainSuffix segment.fileName suffix
  link : ∀ node ∈ d.nodeAt? (target segment suffix), ¬ node.IsLink
  playlist : isPlaylist (target segment suffix) = false

instance (d : Disk) (segment : Path) (suffix : String) : Decidable (IsPlainMove d segment suffix) :=
  decidable_of_iff
    (IsPlainSuffix segment.fileName suffix ∧
      (∀ node ∈ d.nodeAt? (target segment suffix), ¬ node.IsLink) ∧
        isPlaylist (target segment suffix) = false)
    ⟨fun h => ⟨h.1, h.2.1, h.2.2⟩, fun h => ⟨h.plain, h.link, h.playlist⟩⟩

def ArePlain (d : Disk) (files : List Path) (moves : List (Nat × String)) : Prop :=
  ∀ move ∈ moves, ∀ segment ∈ renamed? files move, IsPlainMove d segment move.2

instance (d : Disk) (files : List Path) (moves : List (Nat × String)) :
    Decidable (ArePlain d files moves) :=
  inferInstanceAs (Decidable (∀ move ∈ moves, ∀ segment ∈ renamed? files move, _))

section Target

variable {segment : Path} {name suffix : String}

theorem slash_not_mem_fileName (hname : segment.fileName? = some name) : '/' ∉ name.toList :=
  Path.slash_not_mem_of_mem_pieces (Path.mem_pieces_of_fileName? hname)

theorem target_eq_withName (hname : segment.fileName? = some name) :
    target segment suffix = segment.withName (suffixed name suffix) := by
  rw [target, Path.stem, hname]
  rfl

theorem fileName_target (hname : segment.fileName? = some name)
    (hsuffix : IsPlainSuffix name suffix) :
    (target segment suffix).fileName = suffixed name suffix := by
  have hplain := hsuffix.isName_suffixed (slash_not_mem_fileName hname)
  apply Path.fileName_of_eq_some
  rw [target_eq_withName hname, Path.withName, hplain.fileName?_join]

end Target

/-- What is known when the moves `done` were made on the disk `d`. -/
structure Tracks (d : Disk) (files : List Path) (done : List (Nat × String)) (r : Renaming) :
    Prop where
  alike : Alike d r.disk
  nodes : ∀ p R, isPlaylist p = true → EndsAt d p R → r.disk.node? R = d.node? R
  playlists : r.files.filter isPlaylist = files.filter isPlaylist
  names : ∀ name, r.names[name]? = (suffixesOf files done name).getLast?.map (suffixed name)
  goals : ∀ move ∈ done, ∀ segment ∈ renamed? files move,
    r.files[move.1]? = some (target segment move.2) ∧ ∃ T, EndsAt d (target segment move.2) T

theorem tracks_start (d : Disk) (files : List Path) : Tracks d files [] { files, disk := d } where
  alike := Alike.refl d
  nodes := fun _ _ _ _ => rfl
  playlists := rfl
  names := fun _ => rfl
  goals := fun _ hmove => absurd hmove List.not_mem_nil

/-- A file can be moved without changing where other paths lead. -/
structure CanMove (d : Disk) (segment goal : Path) : Prop where
  segment : ∀ node ∈ d.nodeAt? segment, ¬ node.Guides
  goal : ∀ node ∈ d.nodeAt? goal, ¬ node.IsLink

theorem CanMove.of_alike {d d' : Disk} {segment goal : Path} (hdisks : Alike d d')
    (h : CanMove d segment goal) : CanMove d' segment goal := by
  constructor
  · intro node hnode hguides
    exact h.segment node (nodeAt?_of_guides hdisks.back hguides hnode) hguides
  · intro node hnode hlink
    exact h.goal node (nodeAt?_of_guides hdisks.back hlink.guides hnode) hlink

theorem CanMove.goal_ne {d : Disk} {segment goal : Path} (h : CanMove d segment goal)
    (target : Path) : d.nodeAt? goal ≠ some (.link target) :=
  fun hlink => h.goal _ hlink trivial

theorem alike_clear {d d' : Disk} {goal : Path}
    (hgoal : ∀ target, d.nodeAt? goal ≠ some (.link target)) (hclear : clear d goal = .ok d') :
    Alike d d' := by
  rcases clear_cases hclear with rfl | ⟨e, node, hlocate, hnode, hdirectory, rfl⟩
  · exact Alike.refl _
  · apply alike_drop
    intro there hthere
    rw [hnode] at hthere
    cases hthere
    cases node with
    | directory => exact absurd rfl hdirectory
    | link target => exact absurd ((nodeAt?_of_locate hlocate).trans hnode) (hgoal target)
    | file bytes => exact id
    | sink => exact id

theorem exists_of_move {d cleared d' : Disk} {segment goal : Path} (hmove : CanMove d segment goal)
    (hclear : clear d goal = .ok cleared) (hrename : cleared.rename segment goal = .ok d') :
    Alike d d' ∧ ∃ S T, EndsAt d segment S ∧ EndsAt d goal T ∧
      ∀ R, R ≠ S → R ≠ T → d'.node? R = d.node? R := by
  have halike := alike_clear hmove.goal_ne hclear
  have hmove' := hmove.of_alike halike
  obtain ⟨S, T, node, hS, hT, hnode, hplain, hthere, rfl⟩ :=
    exists_of_rename hrename hmove'.segment hmove'.goal_ne
  have hdropped : ∀ there, cleared.node? S = some there → ¬ there.Guides := by
    intro there hfound
    cases hnode.symm.trans hfound
    exact hplain
  have hplace : ∀ there, (cleared.drop S).node? T = some there → ¬ there.Guides :=
    fun there hfound => hthere there ((within_drop cleared S).nodes T there hfound)
  refine ⟨(halike.trans (alike_drop hdropped)).trans (alike_put hplain hplace), S, T,
    hS.of_guides halike.back, hT.of_guides halike.back, fun R hRS hRT => ?_⟩
  rw [node?_put, if_neg fun hsame => hRT hsame.2, node?_drop, if_neg fun hsame => hRS hsame.2]
  rcases clear_cases hclear with rfl | ⟨e, _, hlocate, _, _, rfl⟩
  · rfl
  · -- what was in the way was at the entry of the goal
    obtain ⟨e', hlocate', rfl, _⟩ := hT.of_guides halike.back
    cases hlocate.symm.trans hlocate'
    rw [node?_drop, if_neg fun hsame => hRT hsame.2]

theorem filter_set_of_false {α : Type*} {keep : α → Bool} {l : List α} {i : Nat} {a b : α}
    (hget : l[i]? = some a) (ha : keep a = false) (hb : keep b = false) :
    (l.set i b).filter keep = l.filter keep := by
  induction l generalizing i with
  | nil => cases hget
  | cons c l ih =>
    cases i with
    | zero =>
      obtain rfl : c = a := by simpa using hget
      rw [List.set_cons_zero, List.filter_cons_of_neg (by simp [hb]),
        List.filter_cons_of_neg (by simp [ha])]
    | succ i =>
      rw [List.getElem?_cons_succ] at hget
      rw [List.set_cons_succ, List.filter_cons, List.filter_cons, ih hget]

section Steps

variable {d : Disk} {files : List Path} {done : List (Nat × String)} {r r' : Renaming}
  {move : Nat × String} {segment : Path}

theorem suffixesOf_append_of_none (h : renamed? files move = none) (name : String) :
    suffixesOf files (done ++ [move]) name = suffixesOf files done name := by
  rw [suffixesOf, List.filter_append, List.filter_cons_of_neg (by simp [h])]
  simp [suffixesOf]

theorem suffixesOf_append_of_some (h : renamed? files move = some segment) (name : String) :
    (suffixesOf files (done ++ [move]) name).getLast? =
      if segment.fileName = name then some move.2 else (suffixesOf files done name).getLast? := by
  rw [suffixesOf, List.filter_append]
  split_ifs with hname
  · rw [List.filter_cons_of_pos (by simp [h, hname])]
    simp
  · rw [List.filter_cons_of_neg (by simp [h, hname])]
    simp [suffixesOf]

theorem Tracks.of_none (h : Tracks d files done r) (hnone : renamed? files move = none) :
    Tracks d files (done ++ [move]) r where
  alike := h.alike
  nodes := h.nodes
  playlists := h.playlists
  names := fun name => by rw [suffixesOf_append_of_none hnone, h.names]
  goals := by
    rw [List.forall_mem_append, List.forall_mem_singleton, hnone]
    exact ⟨h.goals, by simp⟩

/-- A segment that is renamed gets its new name and its new place in the list. -/
theorem Tracks.of_rename (h : Tracks d files done r) (hrenamed : renamed? files move = some segment)
    (hindex : r.files[move.1]? = some segment) (hnew : move.1 ∉ done.map Prod.fst)
    (hother : isPlaylist segment = false) (hfile : ∀ node ∈ d.nodeAt? segment, ¬ node.Guides)
    (hmove : IsPlainMove d segment move.2) {cleared d' : Disk}
    (hclear : clear r.disk (target segment move.2) = .ok cleared)
    (hrename : cleared.rename segment (target segment move.2) = .ok d') :
    Tracks d files (done ++ [move])
      { files := r.files.set move.1 (target segment move.2)
        names := r.names.insert segment.fileName (target segment move.2).fileName
        disk := d' } := by
  have hcan : CanMove d segment (target segment move.2) := ⟨hfile, hmove.link⟩
  obtain ⟨halike, S, T, hS, hT, hnodes⟩ := exists_of_move (hcan.of_alike h.alike) hclear hrename
  have hS := hS.of_guides h.alike.back
  have hT := hT.of_guides h.alike.back
  obtain ⟨name, hname, _⟩ := hS.leads.exists_last
  have hfileName := Path.fileName_of_eq_some hname
  refine ⟨h.alike.trans halike, ?_, ?_, ?_, ?_⟩
  · intro p R hplaylist hend
    rw [hnodes R (ne_of_isPlaylist hend hS hplaylist hother)
      (ne_of_isPlaylist hend hT hplaylist hmove.playlist), h.nodes p R hplaylist hend]
  · rw [filter_set_of_false hindex hother hmove.playlist, h.playlists]
  · intro other
    rw [suffixesOf_append_of_some hrenamed, Std.TreeMap.getElem?_insert, h.names,
      fileName_target hname (hfileName ▸ hmove.plain)]
    by_cases heq : segment.fileName = other
    · subst heq
      simp [hfileName]
    · rw [if_neg (by simpa using heq), if_neg heq]
  · rw [List.forall_mem_append, List.forall_mem_singleton, hrenamed]
    constructor
    · intro other hdone goal hgoal
      have hne : move.1 ≠ other.1 := fun heq => hnew (List.mem_map.2 ⟨other, hdone, heq.symm⟩)
      rw [List.getElem?_set_ne hne]
      exact h.goals other hdone goal hgoal
    · rintro goal ⟨⟩
      have hbound := (List.getElem?_eq_some_iff.1 hindex).1
      exact ⟨List.getElem?_set_self hbound, T, hT⟩

theorem tracks_move (h : Tracks d files done r) (hstep : r.step move.1 move.2 = (r', none))
    (hold : r.files[move.1]? = files[move.1]?) (hnew : move.1 ∉ done.map Prod.fst)
    (hsegment : files[move.1]? = some segment) (hother : isPlaylist segment = false)
    (hfile : ∀ node ∈ d.nodeAt? segment, ¬ node.Guides)
    (hplain : ∀ segment ∈ renamed? files move, IsPlainMove d segment move.2) :
    Tracks d files (done ++ [move]) r' := by
  rw [hsegment] at hold
  rcases of_step_eq_ok hstep hold with ⟨hsame, rfl⟩ | ⟨hsame, cleared, d', hclear, hrename, rfl⟩
  · exact h.of_none (by simp [renamed?, hsegment, hsame])
  · have hrenamed := renamed?_eq_some_iff.2 ⟨hsegment, hsame⟩
    exact h.of_rename hrenamed hold hnew hother hfile (hplain segment hrenamed) hclear hrename

theorem tracks_steps {moves : List (Nat × String)} (h : Tracks d files done r)
    (hsteps : r.steps moves = (r', none)) (hold : ∀ move ∈ moves, r.files[move.1]? = files[move.1]?)
    (honce : ((done ++ moves).map Prod.fst).Nodup)
    (hsegments : ∀ move ∈ moves, ∃ segment, files[move.1]? = some segment ∧
      isPlaylist segment = false ∧ ∀ node ∈ d.nodeAt? segment, ¬ node.Guides)
    (hplain : ArePlain d files moves) : Tracks d files (done ++ moves) r' := by
  induction moves generalizing done r with
  | nil =>
    cases hsteps
    rwa [List.append_nil]
  | cons move moves ih =>
    rw [steps] at hsteps
    cases hstep : r.step move.1 move.2 with
    | mk between fault =>
      rw [hstep] at hsteps
      cases fault with
      | some fault => cases hsteps
      | none =>
        have hnodup := honce
        rw [List.map_append, List.map_cons, List.nodup_append] at hnodup
        obtain ⟨_, hmoves, hapart⟩ := hnodup
        obtain ⟨segment, hsegment, hother, hfile⟩ := hsegments move List.mem_cons_self
        have hnew : move.1 ∉ done.map Prod.fst :=
          fun hmem => hapart _ hmem _ List.mem_cons_self rfl
        have hmoved := tracks_move h hstep (hold move List.mem_cons_self) hnew hsegment hother hfile
          (hplain move List.mem_cons_self)
        have heq : done ++ move :: moves = (done ++ [move]) ++ moves := by simp
        rw [heq] at honce ⊢
        refine ih hmoved hsteps ?_ honce
          (fun other hmem => hsegments other (List.mem_cons_of_mem _ hmem))
          (fun other hmem => hplain other (List.mem_cons_of_mem _ hmem))
        intro other hmem
        have hne : other.1 ≠ move.1 := fun heq =>
          (List.nodup_cons.1 hmoves).1 (List.mem_map.2 ⟨other, hmem, heq⟩)
        rw [← hold other (List.mem_cons_of_mem _ hmem), ← getElem?_files_step r move.2 hne, hstep]

end Steps

section Renew

variable {names : NewNames} {d d' : Disk} {playlists : List Path}

theorem of_renewFile_eq_ok {playlist : Path} {R : Route} {bytes : ByteArray}
    (hend : EndsAt d playlist R) (hnode : d.node? R = some (.file bytes))
    (h : renewFile names d playlist = .ok d') :
    ∃ text, d.readText playlist = .ok text ∧
      d' = d.put R (.file (renew names text).toUTF8) := by
  obtain ⟨text, hread, hwrite⟩ := bind_eq_ok_iff.1 h
  exact ⟨text, hread, eq_put_of_write hend hnode hwrite⟩

theorem alike_put_file {R : Route} {bytes bytes' : ByteArray}
    (hnode : d.node? R = some (.file bytes)) : Alike d (d.put R (.file bytes')) := by
  apply alike_put id
  intro there hthere
  cases hnode.symm.trans hthere
  exact id

theorem AreFiles.rewrite_first {playlist : Path} {R : Route} {old : ByteArray}
    (hfiles : AreFiles d (playlist :: playlists)) (hend : EndsAt d playlist R)
    (hnode : d.node? R = some (.file old)) (bytes : ByteArray) :
    AreFiles (d.put R (.file bytes)) playlists ∧ ∀ p ∈ playlists, ∀ text,
      (d.put R (.file bytes)).readText p = .ok text ↔ d.readText p = .ok text := by
  have hapart := (List.pairwise_cons.1 hfiles.distinct).1
  have halike : Alike d (d.put R (.file bytes)) := alike_put_file hnode
  have hkept : ∀ p ∈ playlists, ∀ S, EndsAt d p S →
      (d.put R (.file bytes)).node? S = d.node? S := by
    intro p hp S hS
    rw [node?_put, if_neg]
    rintro ⟨_, rfl⟩
    exact hapart p hp S hend hS
  refine ⟨(hfiles.sublist (List.sublist_cons_self _ _)).of_sameEntries halike.sameEntries ?_, ?_⟩
  · intro p hp S hS there hfile
    exact ⟨there, (hkept p hp S hS).trans hfile⟩
  · intro p hp text
    obtain ⟨S, there, hS, hfile⟩ := hfiles.file p (List.mem_cons_of_mem _ hp)
    have hfile' := (hkept p hp S hS).trans hfile
    rw [readText_eq_ok_iff hS hfile, readText_eq_ok_iff (hS.of_guides halike.forth) hfile']
    exact Iff.rfl

theorem alike_renewFiles (hfiles : AreFiles d playlists) :
    Alike d (renewFiles names d playlists).1 ∧
      ∀ R, (∀ p ∈ playlists, ¬ EndsAt d p R) →
        (renewFiles names d playlists).1.node? R = d.node? R := by
  induction playlists generalizing d with
  | nil => exact ⟨Alike.refl _, fun _ _ => rfl⟩
  | cons playlist playlists ih =>
    obtain ⟨R, bytes, hend, hnode⟩ := hfiles.file playlist List.mem_cons_self
    rw [renewFiles]
    cases hrenew : renewFile names d playlist with
    | error fault => exact ⟨Alike.refl _, fun _ _ => rfl⟩
    | ok between =>
      obtain ⟨text, _, rfl⟩ := of_renewFile_eq_ok hend hnode hrenew
      have halike := @alike_put_file _ _ _ (renew names text).toUTF8 hnode
      obtain ⟨halike', hrest⟩ :=
        ih (hfiles.rewrite_first hend hnode (renew names text).toUTF8).1
      refine ⟨halike.trans halike', fun S hS => ?_⟩
      have hne : S ≠ R := fun heq => hS playlist List.mem_cons_self (heq ▸ hend)
      rw [hrest S fun p hp hend' => hS p (List.mem_cons_of_mem _ hp) (hend'.of_guides halike.back),
        node?_put, if_neg fun heq => hne heq.2]

/-- Each playlist is renewed from its own text. -/
theorem of_renewFiles_eq_ok (hfiles : AreFiles d playlists)
    (h : renewFiles names d playlists = (d', none)) :
    ∀ p ∈ playlists, ∃ text, d.readText p = .ok text ∧
      d'.readText p = .ok (renew names text) := by
  induction playlists generalizing d with
  | nil => simp
  | cons playlist playlists ih =>
    obtain ⟨R, bytes, hend, hnode⟩ := hfiles.file playlist List.mem_cons_self
    rw [renewFiles] at h
    cases hrenew : renewFile names d playlist with
    | error fault =>
      rw [hrenew] at h
      cases h
    | ok between =>
      rw [hrenew] at h
      obtain ⟨text, hread, rfl⟩ := of_renewFile_eq_ok hend hnode hrenew
      have halike := @alike_put_file _ _ _ (renew names text).toUTF8 hnode
      obtain ⟨hlater, hsame⟩ := hfiles.rewrite_first hend hnode (renew names text).toUTF8
      simp only at h
      intro p hp
      rcases List.mem_cons.1 hp with rfl | hp
      · -- no later playlist is at the entry of this one
        have hapart := (List.pairwise_cons.1 hfiles.distinct).1
        obtain ⟨halike', hrest⟩ := @alike_renewFiles names _ _ hlater
        have hrefuses := refuses_renewFiles names (d.put R (.file (renew names text).toUTF8)) playlists
        rw [h] at halike' hrest hrefuses
        have hnode' : d'.node? R = some (.file (renew names text).toUTF8) := by
          rw [hrest R fun q hq hend' => hapart q hq R hend (hend'.of_guides halike.back),
            node?_put, if_pos ⟨hend.ne_nil, rfl⟩]
        have hend' := (hend.of_guides halike.forth).of_guides halike'.forth
        refine ⟨text, hread, (readText_eq_ok_iff hend' hnode').2 ⟨?_, fromUTF8?_toUTF8 _⟩⟩
        rw [hrefuses]
        exact ((readText_eq_ok_iff hend hnode).1 hread).1
      · obtain ⟨text', hread', hrenewed'⟩ := ih hlater h p hp
        exact ⟨text', (hsame p hp text').1 hread', hrenewed'⟩

theorem exists_renewFiles (hfiles : AreFiles d playlists)
    (hread : ∀ p ∈ playlists, ∃ text, d.readText p = .ok text)
    (hwrite : ∀ p ∈ playlists, d.refuses (.write p) = none) :
    ∃ d', renewFiles names d playlists = (d', none) := by
  induction playlists generalizing d with
  | nil => exact ⟨d, rfl⟩
  | cons playlist playlists ih =>
    obtain ⟨R, bytes, hend, hnode⟩ := hfiles.file playlist List.mem_cons_self
    obtain ⟨text, htext⟩ := hread playlist List.mem_cons_self
    have hrenew : renewFile names d playlist = .ok (d.put R (.file (renew names text).toUTF8)) :=
      bind_eq_ok_iff.2 ⟨text, htext,
        write_eq_ok hend hnode (hwrite playlist List.mem_cons_self) _⟩
    obtain ⟨hlater, hsame⟩ := hfiles.rewrite_first hend hnode (renew names text).toUTF8
    rw [renewFiles, hrenew]
    refine ih hlater ?_ fun p hp => hwrite p (List.mem_cons_of_mem _ hp)
    intro p hp
    obtain ⟨text', htext'⟩ := hread p (List.mem_cons_of_mem _ hp)
    exact ⟨text', (hsame p hp text').2 htext'⟩

end Renew

section Run

variable {d : Disk} {files : List Path} {suffixes : List String} {r : Renaming}

theorem exists_of_mem_order {index : Nat} (h : index ∈ order files) :
    ∃ segment, files[index]? = some segment ∧ isPlaylist segment = false := by
  obtain ⟨hrange, hother⟩ := List.mem_filter.1 ((List.mergeSort_perm _ _).mem_iff.1 h)
  rw [List.getElem?_eq_getElem (List.mem_range.1 hrange), Option.getD_some] at hother
  exact ⟨_, List.getElem?_eq_getElem (List.mem_range.1 hrange), by simpa using hother⟩

/-- The moves that are made keep track from the start, and no playlist changes. -/
theorem tracks_of_steps {moved : Renaming} (hfiles : AreFiles d files)
    (hplain : ArePlain d files ((order files).zip suffixes))
    (hsteps : ({ files, disk := d } : Renaming).steps ((order files).zip suffixes) = (moved, none)) :
    Tracks d files ((order files).zip suffixes) moved ∧
      AreFiles moved.disk (files.filter isPlaylist) ∧ ∀ p ∈ files, isPlaylist p = true →
        ∀ text, moved.disk.readText p = .ok text ↔ d.readText p = .ok text := by
  have hsegments : ∀ move ∈ (order files).zip suffixes, ∃ segment, files[move.1]? = some segment ∧
      isPlaylist segment = false ∧ ∀ node ∈ d.nodeAt? segment, ¬ node.Guides := by
    intro move hmove
    obtain ⟨segment, hsegment, hother⟩ := exists_of_mem_order (List.of_mem_zip hmove).1
    obtain ⟨R, bytes, hend, hnode⟩ := hfiles.file segment (List.mem_of_getElem? hsegment)
    refine ⟨segment, hsegment, hother, fun node hfound => ?_⟩
    cases ((nodeAt?_of_endsAt hend).trans hnode).symm.trans hfound
    exact id
  have htracks : Tracks d files ((order files).zip suffixes) moved := by
    have honce := nodup_moves (nodup_order files) suffixes
    exact tracks_steps (tracks_start d files) hsteps (fun _ _ => rfl) honce hsegments hplain
  have hrefuses : moved.disk.refuses = d.refuses := by
    have hkeeps := (keeps_steps { files, disk := d } ((order files).zip suffixes)).refuses
    rwa [hsteps] at hkeeps
  refine ⟨htracks, ?_, fun p hp hplaylist text => ?_⟩
  · refine (hfiles.sublist List.filter_sublist).of_sameEntries htracks.alike.sameEntries
      fun p hp R hend bytes hnode => ⟨bytes, ?_⟩
    rw [htracks.nodes p R (List.of_mem_filter hp) hend, hnode]
  · obtain ⟨R, bytes, hend, hnode⟩ := hfiles.file p hp
    have hnode' := (htracks.nodes p R hplaylist hend).trans hnode
    rw [readText_eq_ok_iff (hend.of_guides htracks.alike.forth) hnode', hrefuses,
      readText_eq_ok_iff hend hnode]

/-- A renaming that succeeds has made all moves, and has renewed each playlist from the text that
it had, if there was a segment to rename. -/
theorem renewed_of_renameSegments (hfiles : AreFiles d files)
    (hplain : ArePlain d files ((order files).zip suffixes))
    (h : renameSegments d files suffixes = (r, none)) :
    ∃ moved, ({ files, disk := d } : Renaming).steps ((order files).zip suffixes) = (moved, none) ∧
      Tracks d files ((order files).zip suffixes) moved ∧ r.files = moved.files ∧
      Alike d r.disk ∧ (moved.names.isEmpty = false → ∀ p ∈ files, isPlaylist p = true →
        ∃ text, d.readText p = .ok text ∧ r.disk.readText p = .ok (renew moved.names text)) := by
  obtain ⟨moved, hsteps, hlist, hdisk⟩ := of_run_eq_ok h
  obtain ⟨htracks, hplaylists, hsame⟩ := tracks_of_steps hfiles hplain hsteps
  rw [htracks.playlists] at hdisk
  refine ⟨moved, hsteps, htracks, hlist, ?_⟩
  rcases hdisk with ⟨hempty, hdisk⟩ | hrenew
  · rw [hempty, hdisk]
    exact ⟨htracks.alike, fun hfalse => by cases hfalse⟩
  · have halike := (@alike_renewFiles moved.names _ _ hplaylists).1
    rw [hrenew] at halike
    refine ⟨htracks.alike.trans halike, fun _ p hp hplaylist => ?_⟩
    obtain ⟨text, hread, hread'⟩ :=
      of_renewFiles_eq_ok hplaylists hrenew p (List.mem_filter.2 ⟨hp, hplaylist⟩)
    exact ⟨text, (hsame p hp hplaylist text).1 hread, hread'⟩

theorem exists_renameSegments (hfiles : AreFiles d files)
    (hplain : ArePlain d files ((order files).zip suffixes))
    (hsteps : (({ files, disk := d } : Renaming).steps ((order files).zip suffixes)).2 = none)
    (hread : ∀ p ∈ files, isPlaylist p = true → ∃ text, d.readText p = .ok text)
    (hwrite : ∀ p ∈ files, isPlaylist p = true → d.refuses (.write p) = none) :
    ∃ r, renameSegments d files suffixes = (r, none) := by
  unfold renameSegments run
  have hrefuses := (keeps_steps { files, disk := d } ((order files).zip suffixes)).refuses
  generalize hmoved : ({ files, disk := d } : Renaming).steps ((order files).zip suffixes) = result
    at *
  obtain ⟨moved, fault⟩ := result
  obtain rfl : fault = none := hsteps
  obtain ⟨htracks, hplaylists, hsame⟩ := tracks_of_steps hfiles hplain hmoved
  by_cases hempty : moved.names.isEmpty = true
  · exact ⟨moved, if_pos hempty⟩
  · obtain ⟨d', hrenew⟩ := @exists_renewFiles moved.names _ _ hplaylists
      (fun p hp => by
        obtain ⟨hmem, hplaylist⟩ := List.mem_filter.1 hp
        obtain ⟨text, htext⟩ := hread p hmem hplaylist
        exact ⟨text, (hsame p hmem hplaylist text).2 htext⟩)
      (fun p hp => by
        obtain ⟨hmem, hplaylist⟩ := List.mem_filter.1 hp
        rw [hrefuses]
        exact hwrite p hmem hplaylist)
    refine ⟨{ moved with disk := d' }, ?_⟩
    simp only [hempty, htracks.playlists, hrenew]
    rfl

theorem Tracks.givesSuffixes (hfiles : AreFiles d files) {moves : List (Nat × String)}
    (hplain : ArePlain d files moves) (h : Tracks d files moves r) : GivesSuffixes r.names := by
  intro name new hnew
  rw [h.names, Option.map_eq_some_iff] at hnew
  obtain ⟨suffix, hsuffix, rfl⟩ := hnew
  obtain ⟨move, hmove, rfl⟩ := List.mem_map.1 (List.mem_of_getLast? hsuffix)
  obtain ⟨hmem, hname⟩ := List.mem_filter.1 hmove
  obtain ⟨segment, hsegment, rfl⟩ := Option.map_eq_some_iff.1 (of_decide_eq_true hname)
  obtain ⟨R, _, hend, _⟩ := hfiles.file segment
    (List.mem_of_getElem? (renamed?_eq_some_iff.1 hsegment).1)
  obtain ⟨last, hname, _, hlast, _⟩ := hend.leads.exists_last
  have hfile := Path.fileName_of_eq_some hname
  refine ⟨hfile ▸ hlast.1, hfile ▸ slash_not_mem_fileName hname, _, ?_, rfl⟩
  exact (hplain move hmem segment hsegment).plain

end Run

end Montage.Playlist
