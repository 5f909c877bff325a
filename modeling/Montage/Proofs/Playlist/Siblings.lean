import Mathlib.Data.Finset.Card
import Montage.Proofs.Playlist.FileList

/-!
# Segments that take the place of others

A renaming removes what it finds at a goal, as it should for a file of an earlier run. But the
goal may also be where another file of the list is: two segments whose names differ in their
extensions get one new name from equal suffixes, and a new name may be the old name of a segment
whose turn comes later. Then the other file is lost. So the list again names files of their own
exactly if each goal spares its siblings (`areFiles_renameSegments_iff`).

No move makes up for a lost file: the number of files at the entries of the list never grows
(`MovesFile.card_le`).
-/

namespace Montage.Playlist

open Disk Renaming

/-- No goal is the entry of another path in the list as it is then. -/
def SparesSiblings (d : Disk) : List Path → List (Nat × String) → Prop
  | _, [] => True
  | files, move :: moves =>
    match renamed? files move with
    | none => SparesSiblings d files moves
    | some segment =>
      (∀ p ∈ files.eraseIdx move.1, ¬ SharesEntry d (target segment move.2) p) ∧
        SparesSiblings d (files.set move.1 (target segment move.2)) moves

def present (d : Disk) (files : List Path) : Finset Route :=
  (files.filterMap d.entry?).toFinset.filter fun R => (d.node? R).isSome

def OnlyFiles (d : Disk) (files : List Path) : Prop :=
  ∀ p ∈ files, ∃ R, EndsAt d p R ∧ ∀ node, d.node? R = some node → ∃ bytes, node = .file bytes

section Files

variable {d d' : Disk} {files : List Path} {R : Route}

theorem mem_present :
    R ∈ present d files ↔ (∃ p ∈ files, EndsAt d p R) ∧ (d.node? R).isSome = true := by
  simp [present, entry?_eq_some_iff]

theorem AreFiles.onlyFiles (h : AreFiles d files) : OnlyFiles d files := by
  intro p hp
  obtain ⟨R, bytes, hend, hfile⟩ := h.file p hp
  exact ⟨R, hend, fun node hnode => ⟨bytes, Option.some.inj (hnode.symm.trans hfile)⟩⟩

theorem AreFiles.card_present (h : AreFiles d files) : (present d files).card = files.length := by
  induction files with
  | nil => rfl
  | cons p files ih =>
    obtain ⟨R, bytes, hend, hfile⟩ := h.file p List.mem_cons_self
    have hinsert : present d (p :: files) = insert R (present d files) := by
      rw [present, List.filterMap_cons_some (entry?_eq_some_iff.2 hend), List.toFinset_cons,
        Finset.filter_insert, if_pos (by simp [hfile])]
      rfl
    have hnew : R ∉ present d files := by
      rw [mem_present]
      rintro ⟨⟨q, hq, hend'⟩, _⟩
      exact (List.pairwise_cons.1 h.distinct).1 q hq R hend hend'
    rw [hinsert, Finset.card_insert_of_notMem hnew, ih (h.sublist (List.sublist_cons_self _ _)),
      List.length_cons]

theorem AreFiles.of_ne
    (hfile : ∀ p ∈ files, ∃ R bytes, EndsAt d p R ∧ d.node? R = some (.file bytes))
    (hne : ∀ (i j : Nat) (p q : Path), i ≠ j → files[i]? = some p → files[j]? = some q →
      ¬ SharesEntry d p q) :
    AreFiles d files := by
  refine ⟨hfile, List.pairwise_iff_getElem.2 fun i j hi hj hij R hp hq => ?_⟩
  exact hne i j _ _ (Nat.ne_of_lt hij) (List.getElem?_eq_getElem hi) (List.getElem?_eq_getElem hj)
    ⟨R, hp, hq⟩

theorem AreFiles.of_isFile_iff (halike : Alike d d')
    (hnodes : ∀ R, (∃ bytes, d'.node? R = some (.file bytes)) ↔
      ∃ bytes, d.node? R = some (.file bytes)) :
    AreFiles d' files ↔ AreFiles d files := by
  have hback : Alike d' d := ⟨halike.back, halike.forth⟩
  constructor
  · exact fun h => h.of_sameEntries hback.sameEntries
      fun _ _ R _ bytes hfile => (hnodes R).1 ⟨bytes, hfile⟩
  · exact fun h => h.of_sameEntries halike.sameEntries
      fun _ _ R _ bytes hfile => (hnodes R).2 ⟨bytes, hfile⟩

/-- Renewing playlists rewrites files, and makes and removes none. -/
theorem isFile_renewFiles_iff (names : NewNames) (d : Disk) (playlists : List Path) :
    Alike d (renewFiles names d playlists).1 ∧
      ∀ R, (∃ bytes, (renewFiles names d playlists).1.node? R = some (.file bytes)) ↔
        ∃ bytes, d.node? R = some (.file bytes) := by
  induction playlists generalizing d with
  | nil => exact ⟨Alike.refl d, fun _ => Iff.rfl⟩
  | cons playlist playlists ih =>
    rw [renewFiles]
    cases hrenew : renewFile names d playlist with
    | error fault => exact ⟨Alike.refl d, fun _ => Iff.rfl⟩
    | ok between =>
      obtain ⟨halike, hnodes⟩ := ih between
      rcases renewFile_cases hrenew with rfl | ⟨S, there, bytes, hthere, rfl⟩
      · exact ⟨halike, hnodes⟩
      · refine ⟨(alike_put_file hthere).trans halike, fun R => (hnodes R).trans ?_⟩
        rw [node?_put]
        split_ifs with hR
        · obtain ⟨_, rfl⟩ := hR
          simp [hthere]
        · exact Iff.rfl

end Files

structure MovesFile (r r' : Renaming) (move : Nat × String) (segment : Path) (S T : Route) :
    Prop where
  renamed : renamed? r.files move = some segment
  entries : SameEntries r.disk r'.disk
  list : r'.files = r.files.set move.1 (target segment move.2)
  old : EndsAt r.disk segment S
  goal : EndsAt r.disk (target segment move.2) T
  ne : T ≠ S
  file : ∃ bytes, r.disk.node? S = some (.file bytes) ∧
    ∀ R, r'.disk.node? R =
      if R = T then some (.file bytes) else if R = S then none else r.disk.node? R

theorem step_eq_ok_cases {r r' : Renaming} {move : Nat × String} (hfiles : OnlyFiles r.disk r.files)
    (hgoal : ∀ segment ∈ renamed? r.files move, Replaceable r.disk (target segment move.2))
    (h : r.step move.1 move.2 = (r', none)) :
    renamed? r.files move = none ∧ r' = r ∨ ∃ segment S T, MovesFile r r' move segment S T := by
  cases hindex : r.files[move.1]? with
  | none =>
    simp only [step, hindex, Prod.mk.injEq, and_true] at h
    exact Or.inl ⟨by simp [renamed?, hindex], h.symm⟩
  | some segment =>
    rcases of_step_eq_ok h hindex with ⟨hsame, rfl⟩ | ⟨hother, cleared, d, hclear, hrename, rfl⟩
    · exact Or.inl ⟨by simp [renamed?, hindex, hsame], rfl⟩
    · have hsegment := renamed?_eq_some_iff.2 ⟨hindex, hother⟩
      obtain ⟨S, hS, honly⟩ := hfiles segment (List.mem_of_getElem? hindex)
      obtain ⟨hentries, T, bytes, hT, hne, hfile, hmap⟩ :=
        of_move hS honly (hgoal segment hsegment) hclear hrename
      exact Or.inr ⟨segment, S, T, hsegment, hentries, rfl, hS, hT, hne, bytes, hfile, hmap⟩

namespace MovesFile

variable {r r' : Renaming} {move : Nat × String} {segment p : Path} {S T R : Route} {i : Nat}

theorem index (h : MovesFile r r' move segment S T) : r.files[move.1]? = some segment :=
  (renamed?_eq_some_iff.1 h.renamed).1

theorem getElem?_cases (h : MovesFile r r' move segment S T) (hp : r'.files[i]? = some p) :
    i = move.1 ∧ p = target segment move.2 ∨ i ≠ move.1 ∧ r.files[i]? = some p := by
  rw [h.list] at hp
  by_cases hi : i = move.1
  · rw [hi, List.getElem?_set_self (List.getElem?_eq_some_iff.1 h.index).1] at hp
    exact Or.inl ⟨hi, (Option.some.inj hp).symm⟩
  · rw [List.getElem?_set_ne (Ne.symm hi)] at hp
    exact Or.inr ⟨hi, hp⟩

theorem onlyFiles (h : MovesFile r r' move segment S T) (hfiles : OnlyFiles r.disk r.files) :
    OnlyFiles r'.disk r'.files := by
  obtain ⟨bytes, -, hmap⟩ := h.file
  intro p hp
  obtain ⟨i, hi⟩ := List.mem_iff_getElem?.1 hp
  rcases h.getElem?_cases hi with ⟨-, rfl⟩ | ⟨-, hold⟩
  · refine ⟨T, h.entries.forth _ T h.goal, fun node hnode => ⟨bytes, ?_⟩⟩
    rw [hmap, if_pos rfl] at hnode
    exact (Option.some.inj hnode).symm
  · obtain ⟨R, hend, honly⟩ := hfiles p (List.mem_of_getElem? hold)
    refine ⟨R, h.entries.forth p R hend, fun node hnode => ?_⟩
    rw [hmap] at hnode
    split_ifs at hnode
    · exact ⟨bytes, (Option.some.inj hnode).symm⟩
    · exact honly node hnode

theorem present_subset (h : MovesFile r r' move segment S T) :
    present r'.disk r'.files ⊆ insert T ((present r.disk r.files).erase S) := by
  obtain ⟨bytes, -, hmap⟩ := h.file
  intro R hR
  obtain ⟨⟨p, hp, hend⟩, hsome⟩ := mem_present.1 hR
  have hend := h.entries.endsAt_iff.1 hend
  rw [Finset.mem_insert, Finset.mem_erase, mem_present]
  refine or_iff_not_imp_left.2 fun hRT => ?_
  rw [hmap, if_neg hRT] at hsome
  obtain ⟨i, hi⟩ := List.mem_iff_getElem?.1 hp
  rcases h.getElem?_cases hi with ⟨-, rfl⟩ | ⟨-, hold⟩
  · exact absurd (hend.unique h.goal) hRT
  · split_ifs at hsome with hRS
    · cases hsome
    · exact ⟨hRS, ⟨p, List.mem_of_getElem? hold, hend⟩, hsome⟩

theorem mem_present_old (h : MovesFile r r' move segment S T) : S ∈ present r.disk r.files := by
  obtain ⟨bytes, hfile, -⟩ := h.file
  exact mem_present.2 ⟨⟨segment, List.mem_of_getElem? h.index, h.old⟩, by simp [hfile]⟩

theorem card_le (h : MovesFile r r' move segment S T) :
    (present r'.disk r'.files).card ≤ (present r.disk r.files).card :=
  calc (present r'.disk r'.files).card
    _ ≤ (insert T ((present r.disk r.files).erase S)).card := Finset.card_le_card h.present_subset
    _ ≤ ((present r.disk r.files).erase S).card + 1 := Finset.card_insert_le _ _
    _ = (present r.disk r.files).card := Finset.card_erase_add_one h.mem_present_old

/-- Where another file of the list was, one is lost. -/
theorem card_lt (h : MovesFile r r' move segment S T) (hT : T ∈ present r.disk r.files) :
    (present r'.disk r'.files).card < (present r.disk r.files).card := by
  have hthere : T ∈ (present r.disk r.files).erase S := Finset.mem_erase.2 ⟨h.ne, hT⟩
  have hsubset := h.present_subset
  rw [Finset.insert_eq_of_mem hthere] at hsubset
  exact (Finset.card_le_card hsubset).trans_lt (Finset.card_erase_lt_of_mem h.mem_present_old)

theorem areFiles (h : MovesFile r r' move segment S T) (hfiles : AreFiles r.disk r.files)
    (hspares : ∀ p ∈ r.files.eraseIdx move.1, ¬ SharesEntry r.disk (target segment move.2) p) :
    AreFiles r'.disk r'.files := by
  obtain ⟨bytes, hfile, hmap⟩ := h.file
  have hsibling {i : Nat} {p : Path} (hi : i ≠ move.1) (hp : r.files[i]? = some p) :
      ¬ SharesEntry r.disk (target segment move.2) p :=
    hspares p (List.mem_eraseIdx_iff_getElem?.2 ⟨i, hi, hp⟩)
  apply AreFiles.of_ne
  · intro p hp
    obtain ⟨i, hi⟩ := List.mem_iff_getElem?.1 hp
    rcases h.getElem?_cases hi with ⟨-, rfl⟩ | ⟨hne, hold⟩
    · exact ⟨T, bytes, h.entries.forth _ T h.goal, by rw [hmap, if_pos rfl]⟩
    · obtain ⟨R, bytes', hend, hfile'⟩ := hfiles.file p (List.mem_of_getElem? hold)
      have hRT : R ≠ T := fun heq => hsibling hne hold ⟨T, h.goal, heq ▸ hend⟩
      have hRS : R ≠ S := hfiles.ne hold h.index hne hend h.old
      exact ⟨R, bytes', h.entries.forth p R hend, by rw [hmap, if_neg hRT, if_neg hRS, hfile']⟩
  · rintro i j p q hij hp hq ⟨R, hpR, hqR⟩
    have hpR := h.entries.endsAt_iff.1 hpR
    have hqR := h.entries.endsAt_iff.1 hqR
    rcases h.getElem?_cases hp with ⟨hi, rfl⟩ | ⟨hi, hp⟩
    · rcases h.getElem?_cases hq with ⟨hj, rfl⟩ | ⟨hj, hq⟩
      · exact hij (hi.trans hj.symm)
      · exact hsibling hj hq ⟨R, hpR, hqR⟩
    · rcases h.getElem?_cases hq with ⟨hj, rfl⟩ | ⟨hj, hq⟩
      · exact hsibling hi hp ⟨R, hqR, hpR⟩
      · exact hfiles.ne hp hq hij hpR hqR rfl

theorem areReplaceable {moves : List (Nat × String)} (h : MovesFile r r' move segment S T)
    (hgoals : AreReplaceable r.disk r.files moves) (hnew : move.1 ∉ moves.map Prod.fst) :
    AreReplaceable r'.disk r'.files moves := by
  intro other hother sibling hsibling
  have hne : move.1 ≠ other.1 := fun heq => hnew (heq ▸ List.mem_map_of_mem hother)
  have hsame : renamed? r'.files other = renamed? r.files other := by
    rw [renamed?, renamed?, h.list, List.getElem?_set_ne hne]
  exact (hgoals other hother sibling (hsame ▸ hsibling)).of_sameEntries h.entries

end MovesFile

section Run

variable {d d' : Disk} {files : List Path} {moves : List (Nat × String)} {r r' : Renaming}

theorem sparesSiblings_of_none {move : Nat × String} (h : renamed? files move = none) :
    SparesSiblings d files (move :: moves) ↔ SparesSiblings d files moves := by
  rw [SparesSiblings, h]

theorem sparesSiblings_of_some {move : Nat × String} {segment : Path}
    (h : renamed? files move = some segment) :
    SparesSiblings d files (move :: moves) ↔
      (∀ p ∈ files.eraseIdx move.1, ¬ SharesEntry d (target segment move.2) p) ∧
        SparesSiblings d (files.set move.1 (target segment move.2)) moves := by
  rw [SparesSiblings, h]

theorem sparesSiblings_congr (hdisks : SameEntries d d') :
    SparesSiblings d' files moves ↔ SparesSiblings d files moves := by
  induction moves generalizing files with
  | nil => exact Iff.rfl
  | cons move moves ih =>
    cases hsegment : renamed? files move with
    | none => rw [sparesSiblings_of_none hsegment, sparesSiblings_of_none hsegment, ih]
    | some segment =>
      rw [sparesSiblings_of_some hsegment, sparesSiblings_of_some hsegment, ih]
      simp only [SharesEntry, hdisks.endsAt_iff]

theorem of_steps_cons_eq_ok {move : Nat × String} (h : r.steps (move :: moves) = (r', none)) :
    ∃ between, r.step move.1 move.2 = (between, none) ∧ between.steps moves = (r', none) := by
  rw [steps] at h
  cases hstep : r.step move.1 move.2 with
  | mk between fault =>
    rw [hstep] at h
    cases fault with
    | none => exact ⟨between, rfl, h⟩
    | some fault => cases h

/-- However many files are lost, no step brings one back. -/
theorem card_present_steps (hfiles : OnlyFiles r.disk r.files)
    (hgoals : AreReplaceable r.disk r.files moves) (honce : (moves.map Prod.fst).Nodup)
    (h : r.steps moves = (r', none)) :
    (present r'.disk r'.files).card ≤ (present r.disk r.files).card := by
  induction moves generalizing r with
  | nil =>
    cases h
    exact le_rfl
  | cons move moves ih =>
    obtain ⟨between, hstep, hsteps⟩ := of_steps_cons_eq_ok h
    rw [List.map_cons, List.nodup_cons] at honce
    have hlater : AreReplaceable r.disk r.files moves :=
      fun other hother => hgoals other (List.mem_cons_of_mem _ hother)
    rcases step_eq_ok_cases hfiles (hgoals move List.mem_cons_self) hstep with
      ⟨-, rfl⟩ | ⟨segment, S, T, hmoved⟩
    · exact ih hfiles hlater honce.2 hsteps
    · exact (ih (hmoved.onlyFiles hfiles) (hmoved.areReplaceable hlater honce.1) honce.2
        hsteps).trans hmoved.card_le

/-- The steps keep the files apart exactly if each of them spares its siblings. -/
theorem areFiles_steps_iff (hfiles : AreFiles r.disk r.files)
    (hgoals : AreReplaceable r.disk r.files moves) (honce : (moves.map Prod.fst).Nodup)
    (h : r.steps moves = (r', none)) :
    AreFiles r'.disk r'.files ↔ SparesSiblings r.disk r.files moves := by
  induction moves generalizing r with
  | nil =>
    cases h
    exact iff_of_true hfiles trivial
  | cons move moves ih =>
    obtain ⟨between, hstep, hsteps⟩ := of_steps_cons_eq_ok h
    rw [List.map_cons, List.nodup_cons] at honce
    have hlater : AreReplaceable r.disk r.files moves :=
      fun other hother => hgoals other (List.mem_cons_of_mem _ hother)
    rcases step_eq_ok_cases hfiles.onlyFiles (hgoals move List.mem_cons_self) hstep with
      ⟨hnone, rfl⟩ | ⟨segment, S, T, hmoved⟩
    · rw [sparesSiblings_of_none hnone]
      exact ih hfiles hlater honce.2 hsteps
    have hgoals' := hmoved.areReplaceable hlater honce.1
    rw [sparesSiblings_of_some hmoved.renamed, ← hmoved.list, ← sparesSiblings_congr hmoved.entries]
    by_cases hspares : ∀ p ∈ r.files.eraseIdx move.1, ¬ SharesEntry r.disk (target segment move.2) p
    · rw [ih (hmoved.areFiles hfiles hspares) hgoals' honce.2 hsteps, and_iff_right hspares]
    · -- there are fewer files than paths from now on
      refine iff_of_false (fun hend => ?_) fun hboth => hspares hboth.1
      obtain ⟨p, hp, R, hgoal, hend'⟩ : ∃ p ∈ r.files.eraseIdx move.1,
          SharesEntry r.disk (target segment move.2) p := by
        simpa using hspares
      have hmem := List.mem_of_mem_eraseIdx hp
      obtain rfl := hmoved.goal.unique hgoal
      obtain ⟨R', bytes, hR', hfile⟩ := hfiles.file p hmem
      obtain rfl := hend'.unique hR'
      have hlost := hmoved.card_lt (mem_present.2 ⟨⟨p, hmem, hend'⟩, by simp [hfile]⟩)
      have hrest := card_present_steps (hmoved.onlyFiles hfiles.onlyFiles) hgoals' honce.2 hsteps
      have hlength := (keeps_steps r (move :: moves)).length
      rw [h] at hlength
      rw [hfiles.card_present] at hlost
      rw [hend.card_present, hlength] at hrest
      omega

/-- The list of a renaming that succeeds names files of their own, all of them there, exactly if
each goal spares its siblings. -/
theorem areFiles_renameSegments_iff {suffixes : List String} (hfiles : AreFiles d files)
    (hgoals : AreReplaceable d files ((order files).zip suffixes))
    (h : renameSegments d files suffixes = (r, none)) :
    AreFiles r.disk r.files ↔ SparesSiblings d files ((order files).zip suffixes) := by
  obtain ⟨moved, hsteps, hlist, hdisk⟩ := of_run_eq_ok h
  have hmoved := areFiles_steps_iff hfiles hgoals (nodup_moves (nodup_order files) suffixes) hsteps
  rw [hlist, ← hmoved]
  rcases hdisk with ⟨-, hsame⟩ | hrenew
  · rw [hsame]
  · obtain ⟨halike, hnodes⟩ :=
      isFile_renewFiles_iff moved.names moved.disk (moved.files.filter isPlaylist)
    rw [hrenew] at halike hnodes
    exact AreFiles.of_isFile_iff halike hnodes

/-- A segment that replaces a file of an earlier run, and one that keeps its name. -/
theorem areFiles_renameSegments_two :
    let d : Disk := ((({} : Disk).put ["a.mp4"] (.file .empty)).put ["b-y.mp4"] (.file .empty)).put
      ["a-x.mp4"] (.file .empty)
    let files : List Path := [⟨"/a.mp4"⟩, ⟨"/b-y.mp4"⟩]
    let moves := (order files).zip ["-x.mp4", ".mp4"]
    AreFiles d files ∧ AreReplaceable d files moves ∧ SparesSiblings d files moves ∧
      ∃ r, renameSegments d files ["-x.mp4", ".mp4"] = (r, none) ∧ AreFiles r.disk r.files := by
  intro d files moves
  have hfiles : AreFiles d files := by
    refine @AreFiles.of_entries _ _ [["a.mp4"], ["b-y.mp4"]] (by decide +kernel) (by decide) ?_
    simp [d, node?_put]
  have horder : order files = [0, 1] := order_eq (by decide +kernel) (by decide +kernel)
  have hgoals : AreReplaceable d files moves := by
    apply areReplaceable_of_not_isLink
    simp only [moves]
    rw [horder]
    decide +kernel
  have hspares : SparesSiblings d files moves := by
    simp only [moves]
    rw [horder]
    refine (@sparesSiblings_of_some d files _ _ ⟨"/a.mp4"⟩ (by decide +kernel)).2
      ⟨by decide +kernel, ?_⟩
    exact (sparesSiblings_of_none (by decide +kernel)).2 trivial
  have hsuccess : (renameSegments d files ["-x.mp4", ".mp4"]).2 = none := by
    rw [renameSegments, horder]
    decide +kernel
  exact ⟨hfiles, hgoals, hspares, _, Prod.ext rfl hsuccess,
    (areFiles_renameSegments_iff hfiles hgoals (Prod.ext rfl hsuccess)).2 hspares⟩

/-- Two segments that get one name, and a segment that gets the old name of the next one. -/
theorem not_areFiles_renameSegments_two :
    (let d : Disk := (({} : Disk).put ["a.mkv"] (.file .empty)).put ["a.mp4"] (.file .empty)
     let files : List Path := [⟨"/a.mkv"⟩, ⟨"/a.mp4"⟩]
     let r := renameSegments d files ["-x.mp4", "-x.mp4"]
     AreFiles d files ∧ r.2 = none ∧ r.1.files = [⟨"/a-x.mp4"⟩, ⟨"/a-x.mp4"⟩]) ∧
    (let d : Disk := (({} : Disk).put ["a.mp4"] (.file .empty)).put ["ax.mp4"] (.file .empty)
     let files : List Path := [⟨"/a.mp4"⟩, ⟨"/ax.mp4"⟩]
     let r := renameSegments d files ["x.mp4", "y.mp4"]
     AreFiles d files ∧ r.2 = none ∧ r.1.files = [⟨"/ax.mp4"⟩, ⟨"/axy.mp4"⟩] ∧
       r.1.disk.holds ⟨"/ax.mp4"⟩ = false) := by
  constructor
  · intro d files r
    have horder : order files = [0, 1] := order_eq (by decide +kernel) (by decide +kernel)
    refine ⟨?_, ?_⟩
    · refine @AreFiles.of_entries _ _ [["a.mkv"], ["a.mp4"]] (by decide +kernel) (by decide) ?_
      simp [d, node?_put]
    · simp only [r]
      rw [renameSegments, horder]
      decide +kernel
  · intro d files r
    have horder : order files = [0, 1] := order_eq (by decide +kernel) (by decide +kernel)
    refine ⟨?_, ?_⟩
    · refine @AreFiles.of_entries _ _ [["a.mp4"], ["ax.mp4"]] (by decide +kernel) (by decide) ?_
      simp [d, node?_put]
    · simp only [r]
      rw [renameSegments, horder]
      decide +kernel

end Run

end Montage.Playlist
