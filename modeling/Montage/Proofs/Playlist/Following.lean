import Montage.Proofs.Playlist.Renewal

/-!
# Which references follow their segments

A reference names the file that it leads to from the directory of its playlist (`Names`). After
a renaming it should name the same segment under its new path. Whether it does is decided by
two things (`names_iff_of_renameSegments`).

New names are recorded by file name alone, so of segments with one name in several directories
the suffix of the last one counts for all of them. And on a media line the file name of a
reference is looked up, in a tag the reference as it stands there: one that leads into another
directory stays as it was.
-/

namespace Montage.Playlist

open Disk Renaming

/-- The reference of a playlist leads to the entry of a file. -/
def Names (d : Disk) (playlist : Path) (uri : String) (p : Path) : Prop :=
  ∃ R, Leads d ((playlist.parent?.getD ⟨""⟩).join ⟨uri⟩) R ∧ EndsAt d p R

namespace Names

variable {d : Disk} {playlist segment : Path} {uri : String}

theorem exists_fileName (h : Names d playlist uri segment) :
    ∃ name, segment.fileName? = some name ∧ (Path.mk uri).pieces.getLast? = some name ∧
      IsName name := by
  obtain ⟨R, hleads, hend⟩ := h
  obtain ⟨name, hlast, hname, hroute⟩ := hleads.exists_last_of_join
  exact ⟨name, hend.leads.getLast?_eq.trans hroute, hlast, hname⟩

theorem iff_of_leads {R S : Route} (hleads : Leads d ((playlist.parent?.getD ⟨""⟩).join ⟨uri⟩) R)
    (hend : EndsAt d segment S) : Names d playlist uri segment ↔ R = S := by
  constructor
  · rintro ⟨R', hleads', hend'⟩
    rw [hleads.unique hleads', hend'.unique hend]
  · rintro rfl
    exact ⟨R, hleads, hend⟩

end Names

variable {d d' : Disk} {files : List Path} {suffixes : List String} {r : Renaming}
  {playlist segment : Path} {move : Nat × String} {name suffix own : String} {ref : Reference}

theorem suffixed_right_inj : suffixed name suffix = suffixed name own ↔ suffix = own := by
  simp [suffixed, ← String.toList_inj]

namespace Reference

theorem uri_renamed_of_isLookedUp (h : ref.IsLookedUp) (new : String) :
    (ref.renamed new).uri = ((Path.mk ref.uri).withName new).text := by
  cases ref with
  | media uri => rfl
  | tag uri =>
    rw [Reference.uri, Path.withName_of_not_mem h]
    exact if_neg h

theorem uri_renamed_of_not_isLookedUp (h : ¬ ref.IsLookedUp) (new : String) :
    (ref.renamed new).uri = ref.uri := by
  cases ref with
  | media uri => exact absurd trivial h
  | tag uri => exact if_pos (not_not.1 h)

end Reference

/-- The goal of a segment is its entry with the new last name. -/
theorem route_target {S T : Route} (hend : EndsAt d segment S) (hname : segment.fileName? = some name)
    (hsuffix : IsPlainSuffix name suffix) (hgoal : EndsAt d (target segment suffix) T) :
    T = S.dropLast ++ [suffixed name suffix] := by
  have hplain := hsuffix.isName_suffixed (slash_not_mem_fileName hname)
  have hsegment : Leads d ((Path.mk "").join segment) S := by
    rw [Path.join_empty]
    exact hend.leads
  have hnew := hsegment.withName hplain.isName hplain.slash
  rw [Path.join_empty, ← target_eq_withName hname] at hnew
  exact hgoal.leads.unique hnew

theorem suffixed_ne_of_renamed {S : Route} (hend : EndsAt d segment S)
    (hname : segment.fileName? = some name) (hsegment : renamed? files move = some segment) :
    suffixed name move.2 ≠ name := by
  intro heq
  obtain ⟨last, hfile, hlast, hstep, _⟩ := hend.leads.exists_last
  obtain rfl : last = name := Option.some.inj (hfile.symm.trans hname)
  have hidle : Path.isIdle last = false := by simp [Path.isIdle, hstep.1, hstep.2.1]
  have hsame := Path.same_withName hlast hidle (slash_not_mem_fileName hname)
  have hother := (renamed?_eq_some_iff.1 hsegment).2
  rw [target_eq_withName hname, heq, hsame] at hother
  cases hother

/-- With a new name a reference names the goal of its segment if the name is that of the goal and
the reference is looked up at all. -/
theorem names_renamed_iff {T : Route} (hdisks : Alike d d') (hnamed : Names d playlist ref.uri segment)
    (hname : segment.fileName? = some name) (hsuffix : IsPlainSuffix name suffix)
    (hown : IsPlainSuffix name own) (hgoal : EndsAt d (target segment own) T)
    (hother : suffixed name own ≠ name) :
    Names d' playlist (ref.renamed (suffixed name suffix)).uri (target segment own) ↔
      suffix = own ∧ ref.IsLookedUp := by
  obtain ⟨S, hleads, hend⟩ := hnamed
  obtain rfl := route_target hend hname hown hgoal
  have hgoal' := hgoal.of_guides hdisks.forth
  by_cases hlooked : ref.IsLookedUp
  · have hplain := hsuffix.isName_suffixed (slash_not_mem_fileName hname)
    have hnew : Leads d' ((playlist.parent?.getD ⟨""⟩).join
        ⟨((Path.mk ref.uri).withName (suffixed name suffix)).text⟩)
          (S.dropLast ++ [suffixed name suffix]) :=
      (hleads.withName hplain.isName hplain.slash).of_guides hdisks.forth
    rw [Reference.uri_renamed_of_isLookedUp hlooked, Names.iff_of_leads hnew hgoal']
    simp [hlooked, suffixed_right_inj]
  · rw [Reference.uri_renamed_of_not_isLookedUp hlooked,
      Names.iff_of_leads (hleads.of_guides hdisks.forth) hgoal']
    have hlast : S.getLast? = some name := hend.leads.getLast?_eq.symm.trans hname
    refine iff_of_false (fun heq => ?_) fun hboth => hlooked hboth.2
    rw [heq, List.getLast?_concat] at hlast
    exact hother (Option.some.inj hlast)

theorem mem_suffixesOf {moves : List (Nat × String)} (hmove : move ∈ moves)
    (hsegment : renamed? files move = some segment) :
    move.2 ∈ suffixesOf files moves segment.fileName :=
  List.mem_map.2 ⟨move, List.mem_filter.2 ⟨hmove, by simp [hsegment]⟩, rfl⟩

/-- A reference to a renamed segment gets the suffix of the last segment with that file name, and
then names the segment under its new path exactly if that is the suffix of the segment itself
and the reference is looked up by its file name. -/
theorem names_iff_of_renameSegments (hfiles : AreFiles d files)
    (hplain : ArePlain d files ((order files).zip suffixes))
    (h : renameSegments d files suffixes = (r, none)) (hplaylist : playlist ∈ files)
    (hkind : isPlaylist playlist = true) (hmove : move ∈ (order files).zip suffixes)
    (hsegment : renamed? files move = some segment) :
    ∃ text text', d.readText playlist = .ok text ∧ r.disk.readText playlist = .ok text' ∧
      r.files[move.1]? = some (target segment move.2) ∧
      (Text.lines text').length = (Text.lines text).length ∧
      ∀ (n : Nat) (line : String) (ref : Reference), (Text.lines text)[n]? = some line →
        Reference.ofLine? line = some ref → ref.IsPlainIn line → Names d playlist ref.uri segment →
        ∃ line' suffix, (Text.lines text')[n]? = some line' ∧
          (suffixesOf files ((order files).zip suffixes) segment.fileName).getLast? = some suffix ∧
          Reference.ofLine? line' = some (ref.renamed (suffixed segment.fileName suffix)) ∧
          (Names r.disk playlist (ref.renamed (suffixed segment.fileName suffix)).uri
            (target segment move.2) ↔ suffix = move.2 ∧ ref.IsLookedUp) := by
  obtain ⟨moved, -, htracks, hlist, halike, hrenewed⟩ := renewed_of_renameSegments hfiles hplain h
  have hnames := htracks.givesSuffixes hfiles hplain
  obtain ⟨suffix, hsuffix⟩ : ∃ suffix,
      (suffixesOf files ((order files).zip suffixes) segment.fileName).getLast? = some suffix :=
    ⟨_, List.getLast?_eq_some_getLast (List.ne_nil_of_mem (mem_suffixesOf hmove hsegment))⟩
  have hnew : moved.names[segment.fileName]? = some (suffixed segment.fileName suffix) := by
    rw [htracks.names, hsuffix, Option.map_some]
  -- the suffix that counts may be that of another segment, but it is plain as well
  obtain ⟨_, _, given, hgiven, hgivenName⟩ := hnames _ _ hnew
  obtain rfl := suffixed_right_inj.1 hgivenName
  have hsome : moved.names.isEmpty = false := by
    rw [Std.TreeMap.isEmpty_eq_false_iff_exists_mem]
    refine ⟨segment.fileName, ?_⟩
    rw [Std.TreeMap.mem_iff_isSome_getElem?, hnew]
    rfl
  obtain ⟨text, hread, hread'⟩ := hrenewed hsome playlist hplaylist hkind
  obtain ⟨hgoal, T, hT⟩ := htracks.goals move hmove segment hsegment
  refine ⟨text, _, hread, hread', by rw [hlist, hgoal], by rw [lines_renew hnames, List.length_map],
    fun n line ref hline href hplainLine hnamed => ?_⟩
  obtain ⟨name, hname, hlast, hstep⟩ := hnamed.exists_fileName
  have hfile := Path.fileName_of_eq_some hname
  rw [hfile] at hnew ⊢
  refine ⟨newLine moved.names line, suffix, ?_, hfile ▸ hsuffix,
    ofLine?_newLine hnames href hplainLine hlast hstep hnew, ?_⟩
  · rw [lines_renew hnames, List.getElem?_map, hline]
    rfl
  · have hown := (hplain move hmove segment hsegment).plain
    obtain ⟨S, hleads, hend⟩ := hnamed
    exact names_renamed_iff halike ⟨S, hleads, hend⟩ hname (hfile ▸ hgiven) (hfile ▸ hown) hT
      (suffixed_ne_of_renamed hend hname hsegment)

/-- A media line with a directory in front of the name of the segment. -/
theorem names_iff_of_renameSegments_media :
    let d : Disk := (((({} : Disk).put ["v"] .directory).put ["v", "seg.mp4"] (.file .empty)).put
      ["main.m3u8"] (.file "#EXTM3U\nv/seg.mp4\n".toUTF8))
    let files : List Path := [⟨"/main.m3u8"⟩, ⟨"/v/seg.mp4"⟩]
    ∃ r text, renameSegments d files ["-low.mp4"] = (r, none) ∧
      r.files[1]? = some ⟨"/v/seg-low.mp4"⟩ ∧ r.disk.readText ⟨"/main.m3u8"⟩ = .ok text ∧
      ∃ line, (Text.lines text)[1]? = some line ∧
        Reference.ofLine? line = some (.media "v/seg-low.mp4") ∧
        Names r.disk ⟨"/main.m3u8"⟩ "v/seg-low.mp4" ⟨"/v/seg-low.mp4"⟩ := by
  intro d files
  have hfiles : AreFiles d files := by
    refine @AreFiles.of_entries _ _ [["main.m3u8"], ["v", "seg.mp4"]] (by decide +kernel) (by decide) ?_
    simp [d, node?_put]
  have horder : order files = [1] := order_eq (by decide +kernel) (by decide +kernel)
  have hplain : ArePlain d files ((order files).zip ["-low.mp4"]) := by
    rw [horder]
    decide +kernel
  have hmain : EndsAt d ⟨"/main.m3u8"⟩ ["main.m3u8"] := entry?_eq_some_iff.1 (by decide +kernel)
  have hread : d.readText ⟨"/main.m3u8"⟩ = .ok "#EXTM3U\nv/seg.mp4\n" :=
    readText_toUTF8 hmain (by simp [d, node?_put]) rfl
  obtain ⟨r, hrename⟩ : ∃ r, renameSegments d files ["-low.mp4"] = (r, none) := by
    refine exists_renameSegments hfiles hplain (by rw [horder]; decide +kernel) ?_ fun _ _ _ => rfl
    simp only [files, List.forall_mem_cons]
    exact ⟨fun _ => ⟨_, hread⟩, fun hfalse => absurd hfalse (by decide), by simp⟩
  obtain ⟨text, text', hread', hnew, hgoal, _, hreferences⟩ :=
    @names_iff_of_renameSegments d files ["-low.mp4"] r ⟨"/main.m3u8"⟩ ⟨"/v/seg.mp4"⟩ (1, "-low.mp4")
      hfiles hplain hrename (by decide) (by decide) (by rw [horder]; decide) (by decide +kernel)
  cases hread.symm.trans hread'
  have hnamed : Names d ⟨"/main.m3u8"⟩ "v/seg.mp4" ⟨"/v/seg.mp4"⟩ :=
    ⟨["v", "seg.mp4"], (entry?_eq_some_iff.1 (by decide +kernel)).leads,
      entry?_eq_some_iff.1 (by decide +kernel)⟩
  obtain ⟨line, suffix, hline, hsuffix, href, hiff⟩ := hreferences 1 "v/seg.mp4" (.media "v/seg.mp4")
    (by decide +kernel) (by decide +kernel) trivial hnamed
  have hlast : (suffixesOf files ((order files).zip ["-low.mp4"])
      (Path.mk "/v/seg.mp4").fileName).getLast? = some "-low.mp4" := by
    rw [horder]
    decide +kernel
  cases hlast.symm.trans hsuffix
  have hrenamed : (Reference.media "v/seg.mp4").renamed
      (suffixed (Path.mk "/v/seg.mp4").fileName "-low.mp4") = .media "v/seg-low.mp4" := by
    decide +kernel
  have htarget : target ⟨"/v/seg.mp4"⟩ "-low.mp4" = ⟨"/v/seg-low.mp4"⟩ := by decide +kernel
  rw [hrenamed] at href hiff
  rw [htarget] at hgoal hiff
  exact ⟨r, text', hrename, hgoal, hnew, line, hline, href, hiff.2 ⟨rfl, trivial⟩⟩

/-- Two segments of one name, with a playlist beside each: the first playlist gets the suffix of
the second segment. -/
theorem not_names_of_renameSegments_clash :
    let d : Disk := (((((({} : Disk).put ["low"] .directory).put ["high"] .directory).put
      ["low", "seg.mp4"] (.file .empty)).put ["high", "seg.mp4"] (.file .empty)).put
        ["low", "a.m3u8"] (.file "#EXTM3U\nseg.mp4\n".toUTF8)).put
          ["high", "a.m3u8"] (.file "#EXTM3U\nseg.mp4\n".toUTF8)
    let files : List Path :=
      [⟨"/low/a.m3u8"⟩, ⟨"/low/seg.mp4"⟩, ⟨"/high/a.m3u8"⟩, ⟨"/high/seg.mp4"⟩]
    ∃ r, renameSegments d files ["-low.mp4", "-high.mp4"] = (r, none) ∧ AreFiles d files ∧
      d.readText ⟨"/low/a.m3u8"⟩ = .ok "#EXTM3U\nseg.mp4\n" ∧
      Names d ⟨"/low/a.m3u8"⟩ "seg.mp4" ⟨"/low/seg.mp4"⟩ ∧
      r.disk.readText ⟨"/low/a.m3u8"⟩ = .ok "#EXTM3U\nseg-high.mp4\n" ∧
      r.files[1]? = some ⟨"/low/seg-low.mp4"⟩ ∧
      ¬ Names r.disk ⟨"/low/a.m3u8"⟩ "seg-high.mp4" ⟨"/low/seg-low.mp4"⟩ := by
  intro d files
  have hfiles : AreFiles d files := by
    refine @AreFiles.of_entries _ _
      [["low", "a.m3u8"], ["low", "seg.mp4"], ["high", "a.m3u8"], ["high", "seg.mp4"]]
      (by decide +kernel) (by decide) ?_
    simp [d, node?_put]
  have horder : order files = [1, 3] := order_eq (by decide +kernel) (by decide +kernel)
  have hplain : ArePlain d files ((order files).zip ["-low.mp4", "-high.mp4"]) := by
    rw [horder]
    decide +kernel
  have hlow : d.readText ⟨"/low/a.m3u8"⟩ = .ok "#EXTM3U\nseg.mp4\n" := by
    apply @readText_toUTF8 _ _ ["low", "a.m3u8"] _ (entry?_eq_some_iff.1 (by decide +kernel)) _ rfl
    simp [d, node?_put]
  have hhigh : d.readText ⟨"/high/a.m3u8"⟩ = .ok "#EXTM3U\nseg.mp4\n" := by
    apply @readText_toUTF8 _ _ ["high", "a.m3u8"] _ (entry?_eq_some_iff.1 (by decide +kernel)) _ rfl
    simp [d, node?_put]
  obtain ⟨r, hrename⟩ : ∃ r, renameSegments d files ["-low.mp4", "-high.mp4"] = (r, none) := by
    refine exists_renameSegments hfiles hplain (by rw [horder]; decide +kernel) ?_ fun _ _ _ => rfl
    simp only [files, List.forall_mem_cons]
    exact ⟨fun _ => ⟨_, hlow⟩, fun hfalse => absurd hfalse (by decide), fun _ => ⟨_, hhigh⟩,
      fun hfalse => absurd hfalse (by decide), by simp⟩
  obtain ⟨moved, hsteps, _, hlist, _, hrenewed⟩ := renewed_of_renameSegments hfiles hplain hrename
  have hmoved : moved = (({ files, disk := d } : Renaming).steps
      ([1, 3].zip ["-low.mp4", "-high.mp4"])).1 := by rw [← horder, hsteps]
  obtain ⟨text, hread, hread'⟩ := hrenewed (by rw [hmoved]; decide +kernel) ⟨"/low/a.m3u8"⟩
    (by decide) (by decide)
  cases hlow.symm.trans hread
  have hrenew : renew moved.names "#EXTM3U\nseg.mp4\n" = "#EXTM3U\nseg-high.mp4\n" := by
    rw [hmoved]
    decide +kernel
  rw [hrenew] at hread'
  refine ⟨r, hrename, hfiles, hlow, ?_, hread', ?_, ?_⟩
  · exact ⟨["low", "seg.mp4"], (entry?_eq_some_iff.1 (by decide +kernel)).leads,
      entry?_eq_some_iff.1 (by decide +kernel)⟩
  · rw [hlist, hmoved]
    decide +kernel
  · -- the reference and the segment have different file names
    rintro ⟨R, hleads, hend⟩
    have hname := hleads.getLast?_eq.trans hend.leads.getLast?_eq.symm
    revert hname
    decide +kernel

end Montage.Playlist
