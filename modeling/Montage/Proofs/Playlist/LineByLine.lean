import Montage.Proofs.Playlist.Reference
import Mathlib.Data.List.Forall2

/-!
# A playlist is renewed line by line

If no new name is broken in two, then a renewed playlist has a line for each line, in the
same order (`lines_renew_of_arePlainNames`). A line that refers to nothing with a new name
stays, and a media line changes in its last name only. What a tag refers to is its first `URI`
attribute that is not empty.
-/

namespace Montage

namespace Text

theorem getLast?_trimEnd (cs : List Char) : ∀ c ∈ (trimEnd cs).getLast?, isBlank c = false := by
  induction cs with
  | nil => simp
  | cons c cs ih =>
    rw [trimEnd]
    split
    · split_ifs with hc
      · simp
      · simpa using hc
    · rename_i heq
      rwa [List.getLast?_cons_cons, ← heq]

theorem getLast?_of_trimmed {s : String} (h : trimmed s = s) :
    ∀ c ∈ s.toList.getLast?, isBlank c = false := by
  rw [← h, trimmed, String.toList_ofList]
  exact getLast?_trimEnd _

theorem length_le_of_find? {pattern cs a b : List Char} (h : find? pattern cs = some (a, b))
    {before after : List Char} (hcs : cs = before ++ pattern ++ after) :
    a.length ≤ before.length := by
  induction cs generalizing a before with
  | nil => cases h
  | cons c cs ih =>
    rw [find?] at h
    split at h
    · cases h
      exact Nat.zero_le _
    · rename_i hstart
      obtain ⟨⟨a', b'⟩, hfind, hparts⟩ := Option.map_eq_some_iff.1 h
      cases hparts
      cases before with
      | nil =>
        rw [hcs, List.nil_append] at hstart
        exact absurd (List.prefix_append _ _) (isPrefixOf?_eq_none_iff.1 hstart)
      | cons d before =>
        have hrest : cs = before ++ pattern ++ after := (List.cons.inj hcs).2
        exact Nat.succ_le_succ (ih hfind hrest)

theorem intercalate_splitAll (c : Char) (a : List Char) : [c].intercalate (splitAll c a) = a := by
  induction a with
  | nil => rfl
  | cons d a ih =>
    obtain ⟨part, parts, hparts⟩ := List.exists_cons_of_ne_nil (splitAll_ne_nil c a)
    rw [hparts] at ih
    rw [splitAll, hparts]
    split_ifs with hd
    · rw [hd, ← ih]
      simp [List.intercalate]
    · rw [← ih]
      cases parts <;> simp [List.intercalate]

end Text

namespace Path

theorem eq_of_pieces_eq {p q : Path} (h : p.pieces = q.pieces) : p = q := by
  have hofList : Function.Injective String.ofList := fun a b hab => by
    simpa using congrArg String.toList hab
  have hparts : Text.splitAll '/' p.text.toList = Text.splitAll '/' q.text.toList :=
    List.map_injective_iff.2 hofList h
  have htext := congrArg (['/'].intercalate ·) hparts
  simp only [Text.intercalate_splitAll] at htext
  obtain ⟨text⟩ := p
  exact congrArg Path.mk (String.toList_inj.1 htext)

theorem pieces_append (dir name : String) :
    (Path.mk (dir ++ "/" ++ name)).pieces = (Path.mk dir).pieces ++ (Path.mk name).pieces := by
  have htext : (dir ++ "/" ++ name).toList = dir.toList ++ '/' :: name.toList := by simp
  simp only [pieces, Text.split, htext, Text.splitAll_append, List.map_append]

/-- No piece behind the first one is idle: a directory without `.` steps and doubled slashes. -/
def IsPlainDirectory (dir : String) : Prop :=
  ∀ piece ∈ (Path.mk dir).pieces.tail, isIdle piece = false

instance (dir : String) : Decidable (IsPlainDirectory dir) :=
  inferInstanceAs (Decidable (∀ piece ∈ (Path.mk dir).pieces.tail, _))

/-- Behind a plain directory the last name is all that changes. -/
theorem withName_append {dir old new : String} (hdir : IsPlainDirectory dir)
    (hold : isIdle old = false) (hslash : '/' ∉ old.toList) (hnew : '/' ∉ new.toList) :
    ((Path.mk (dir ++ "/" ++ old)).withName new).text = dir ++ "/" ++ new := by
  have hpieces : (Path.mk (dir ++ "/" ++ old)).pieces = (Path.mk dir).pieces ++ [old] := by
    rw [pieces_append, pieces_of_not_mem hslash]
  obtain ⟨kept, idles, hkept, hidles, hhead, hnewPieces⟩ :=
    exists_pieces_withName hpieces hold hnew
  obtain ⟨first, rest, hfirst⟩ := List.exists_cons_of_ne_nil (Path.mk dir).pieces_ne_nil
  obtain ⟨more, rfl⟩ : ∃ more, kept = first :: more := by
    rw [hfirst, List.head?_cons] at hhead
    exact List.head?_eq_some_iff.1 hhead
  -- an idle piece in front of the name would stand behind the first piece of the directory
  have hnone : idles = [] := by
    refine List.eq_nil_iff_forall_not_mem.2 fun piece hpiece => ?_
    have hplain := hdir piece (by simp [hkept, hpiece])
    rw [hidles piece hpiece] at hplain
    cases hplain
  have hsame : ((Path.mk (dir ++ "/" ++ old)).withName new).pieces =
      (Path.mk (dir ++ "/" ++ new)).pieces := by
    rw [hnewPieces, pieces_append, pieces_of_not_mem hnew, hkept, hnone, List.append_nil]
  rw [eq_of_pieces_eq hsame]

theorem getLast?_join {p : Path} (hp : p.text ≠ "") {name : String} (hslash : '/' ∉ name.toList)
    {c : Char} (hname : name.toList.getLast? ≠ some c) (hc : c ≠ '/') :
    (p.join ⟨name⟩).text.toList.getLast? ≠ some c := by
  by_cases hempty : name = ""
  · subst hempty
    unfold join
    rw [isAbsolute_of_not_mem hslash, if_neg Bool.false_ne_true]
    split_ifs with hends
    · have hslash : ['/'] <:+ p.text.toList := by
        simpa [hp, Text.endsWith] using hends
      obtain ⟨front, hfront⟩ := hslash
      simp [← hfront, hc.symm]
    · simp [hc.symm]
  · obtain ⟨front, hfront⟩ := exists_text_join p ⟨name⟩
    have hne : name.toList ≠ [] := mt String.toList_eq_nil_iff.1 hempty
    rwa [hfront, String.toList_append, List.getLast?_append_of_ne_nil _ hne]

theorem getLast?_components_of_not_mem {name : String} (hne : name ≠ "") (h : '/' ∉ name.toList) :
    ∃ c, (Path.mk name).components.getLast? = some c ∧ c.text = name := by
  have hrelative := isAbsolute_of_not_mem h
  have hcomponents : (Path.mk name).components =
      if name = "." then [.here] else (Component.ofPiece? name).toList := by
    simp [components, pieces_of_not_mem h, hrelative]
  rw [hcomponents]
  by_cases hhere : name = "."
  · exact ⟨.here, by simp [hhere], hhere.symm⟩
  · by_cases hup : name = ".."
    · exact ⟨.up, by simp [hup, Component.ofPiece?], hup.symm⟩
    · exact ⟨.name name, by simp [hhere, hup, hne, Component.ofPiece?], rfl⟩

end Path

namespace Playlist

/-- Old and new names without slashes, where a new name has no blanks around it and fits on a
line. -/
structure ArePlainNames (names : NewNames) : Prop where
  old : ∀ name ∈ names, name ≠ "" ∧ '/' ∉ name.toList
  new : ∀ name new : String, names[name]? = some new →
    '/' ∉ new.toList ∧ '\n' ∉ new.toList ∧ Text.trimmed new = new

/-- What is referred to has a new name: a tag is looked up as a whole, and of a media line the
last component. -/
def Reference.IsKnown (names : NewNames) : Reference → Prop
  | media uri => ∃ c ∈ (Path.mk uri).components.getLast?, c.text ∈ names
  | tag uri => uri ∈ names

structure IsRenewal (names : NewNames) (line line' : String) : Prop where
  /-- A line stays if it refers to nothing with a new name. -/
  unknown : (∀ ref ∈ Reference.ofLine? line, ¬ ref.IsKnown names) → line' = line
  name : ∀ old new : String, names[old]? = some new → line.toList.head? ≠ some '#' →
    line = old → line' = new
  directory : ∀ old new dir : String, names[old]? = some new → line.toList.head? ≠ some '#' →
    old ≠ "." → old ≠ ".." → Path.IsPlainDirectory dir → line = dir ++ "/" ++ old →
      line' = dir ++ "/" ++ new

variable {names : NewNames} {line uri : String}

theorem ArePlainNames.old_of_getElem? (h : ArePlainNames names) {old new : String}
    (hnew : names[old]? = some new) : old ≠ "" ∧ '/' ∉ old.toList := by
  apply h.old
  rw [Std.TreeMap.mem_iff_isSome_getElem?, hnew]
  rfl

theorem ArePlainNames.keepsLines (h : ArePlainNames names) : KeepsLines names :=
  fun name new hnew _ => (h.new name new hnew).2.1

theorem mem_of_getElem? {old new : String} (h : names[old]? = some new) : old ∈ names := by
  rw [Std.TreeMap.mem_iff_isSome_getElem?, h]
  rfl

section Media

variable (h : ArePlainNames names)
include h

theorem renewMedia_of_unknown (hunknown : ¬ (Reference.media uri).IsKnown names) :
    renewMedia names uri = uri := by
  unfold renewMedia
  split
  · rename_i new hwhole
    obtain ⟨hne, hslash⟩ := h.old_of_getElem? hwhole
    obtain ⟨c, hlast, hc⟩ := Path.getLast?_components_of_not_mem hne hslash
    exact absurd ⟨c, hlast, hc ▸ mem_of_getElem? hwhole⟩ hunknown
  · simp only
    split
    · rename_i new hfile
      cases hname : (Path.mk uri).fileName? with
      | none =>
        rw [Path.fileName, hname, Option.getD_none] at hfile
        exact absurd rfl (h.old_of_getElem? hfile).1
      | some name =>
        rw [Path.fileName_of_eq_some hname] at hfile
        have hlast : (Path.mk uri).components.getLast? = some (.name name) := by
          unfold Path.fileName? at hname
          split at hname
          · rename_i hlast
            rw [hlast, Option.some.inj hname]
          · cases hname
        exact absurd ⟨_, hlast, mem_of_getElem? hfile⟩ hunknown
    · rfl

theorem renewMedia_of_directory {dir old new : String} (hnew : names[old]? = some new)
    (hold : old ≠ "." ∧ old ≠ "..") (hdir : Path.IsPlainDirectory dir) :
    renewMedia names (dir ++ "/" ++ old) = dir ++ "/" ++ new := by
  obtain ⟨hne, hslash⟩ := h.old_of_getElem? hnew
  have hlast : (Path.mk (dir ++ "/" ++ old)).pieces.getLast? = some old := by
    rw [Path.pieces_append, Path.pieces_of_not_mem hslash, List.getLast?_concat]
  have hidle : Path.isIdle old = false := by simp [Path.isIdle, hne, hold.1]
  rw [renewMedia_eq (fun _ hwhole => (h.old_of_getElem? hwhole).2)
    (Path.fileName?_of_getLast? hlast ⟨hne, hold⟩) hnew,
    Path.withName_append hdir hidle hslash (h.new old new hnew).1]

end Media

theorem renewLine_of_ofLine?_eq_none (h : Reference.ofLine? line = none)
    (htrimmed : Text.trimmed line = line) : renewLine names line = line := by
  unfold Reference.ofLine? at h
  simp only [renewLine]
  rw [htrimmed] at h ⊢
  split_ifs with hempty hhash
  · exact hempty.symm
  · rw [renewTag]
    by_cases htag : namesFile line = true
    · rw [if_pos htag] at h ⊢
      rw [Option.map_eq_none_iff.1 h]
    · rw [if_neg htag]
  · have htag : ¬ namesFile line = true := fun htag =>
      hhash (startsWith_hash_iff.2 (head?_of_namesFile htag))
    simp [htag, hempty, hhash] at h

theorem isRenewal_renewLine (h : ArePlainNames names) (htrimmed : Text.trimmed line = line) :
    IsRenewal names line (renewLine names line) := by
  have hmedia (hne : line ≠ "") (hhash : line.toList.head? ≠ some '#') :
      renewLine names line = renewMedia names line := by
    apply Reference.renewLine_of_media
    rw [Reference.ofLine?_eq_media_iff]
    exact ⟨htrimmed.symm, hne, hhash⟩
  constructor
  · intro hunknown
    cases href : Reference.ofLine? line with
    | none => exact renewLine_of_ofLine?_eq_none href htrimmed
    | some ref =>
      have hother := hunknown ref href
      cases ref with
      | media uri =>
        obtain rfl : uri = line := (Reference.ofLine?_eq_media_iff.1 href).1.trans htrimmed
        rw [Reference.renewLine_of_media href, renewMedia_of_unknown h hother]
      | tag uri =>
        have hnone : names[uri]? = none := Std.TreeMap.getElem?_eq_none hother
        rw [Reference.renewLine_of_tag href, hnone]
  · rintro old new hnew hhash rfl
    rw [hmedia (h.old_of_getElem? hnew).1 hhash, renewMedia, hnew]
  · rintro old new dir hnew hhash hhere hup hdir rfl
    have hne : dir ++ "/" ++ old ≠ "" := by
      intro hempty
      have hlength := congrArg (fun s => s.toList.length) hempty
      simp at hlength
    rw [hmedia hne hhash, renewMedia_of_directory h hnew ⟨hhere, hup⟩ hdir]

theorem getLast?_replaceFirst {new : List Char} {cs uri : List Char} (h : uriIn? cs = some uri) :
    (Text.replaceFirst uri new cs).getLast? = cs.getLast? := by
  rw [Text.replaceFirst]
  split
  · rename_i a b hfind
    obtain ⟨before, after, hcs, -⟩ := exists_of_uriIn? h
    have hbound := Text.length_le_of_find? hfind (hcs.trans (List.append_assoc _ _ _).symm)
    have hparts := Text.eq_append_of_find? hfind
    have hb : b ≠ [] := by
      rintro rfl
      have hlength := congrArg List.length (hparts.symm.trans hcs)
      simp only [List.length_append, List.length_nil, List.length_cons] at hlength hbound
      omega
    rw [hparts, List.getLast?_append_of_ne_nil _ hb, List.getLast?_append_of_ne_nil _ hb]
  · rfl

theorem getLast?_ne_return_of_trimmed (h : Text.trimmed line = line) :
    line.toList.getLast? ≠ some '\r' := by
  intro hlast
  have hblank := Text.getLast?_of_trimmed h _ hlast
  revert hblank
  decide

theorem getLast?_renewTag (names : NewNames) (line : String) :
    (renewTag names line).toList.getLast? = line.toList.getLast? := by
  unfold renewTag
  split_ifs
  · split
    · rename_i uri huri
      split
      · rw [String.toList_ofList, getLast?_replaceFirst huri]
      · rfl
    · rfl
  · rfl

theorem getLast?_renewMedia_ne_return (h : ArePlainNames names)
    (huri : uri.toList.getLast? ≠ some '\r') :
    (renewMedia names uri).toList.getLast? ≠ some '\r' := by
  unfold renewMedia
  split
  · rename_i new hnew
    exact getLast?_ne_return_of_trimmed (h.new _ new hnew).2.2
  · simp only
    split
    · rename_i new hnew
      obtain ⟨hslash, -, htrimmed⟩ := h.new _ new hnew
      have hlast := getLast?_ne_return_of_trimmed htrimmed
      split
      · split_ifs with hparent
        · exact hlast
        · exact Path.getLast?_join hparent hslash hlast (by decide)
      · exact hlast
    · exact huri

/-- A line is read back as it was written. -/
theorem newLine_eq (h : ArePlainNames names) (htrimmed : Text.trimmed line = line) :
    newLine names line = renewLine names line := by
  have hline := getLast?_ne_return_of_trimmed htrimmed
  have hkept : (renewLine names line).toList.getLast? ≠ some '\r' := by
    simp only [renewLine, htrimmed]
    split_ifs
    · simp
    · rwa [getLast?_renewTag]
    · exact getLast?_renewMedia_ne_return h hline
  rw [newLine, Text.dropReturn_of_getLast? hkept, String.ofList_toList]

/-- A playlist of trimmed lines is renewed line by line, and each line stays or follows a new
name. -/
theorem lines_renew_of_arePlainNames (h : ArePlainNames names) {lines : List String}
    (hlines : ∀ line ∈ lines, '\n' ∉ line.toList ∧ Text.trimmed line = line) :
    ∃ lines', renew names (String.join (lines.map (· ++ "\n"))) =
        String.join (lines'.map (· ++ "\n")) ∧
      Text.lines (renew names (String.join (lines.map (· ++ "\n")))) = lines' ∧
      List.Forall₂ (IsRenewal names) lines lines' := by
  have hread : Text.lines (String.join (lines.map (· ++ "\n"))) = lines := by
    rw [Text.lines_join fun line hline => (hlines line hline).1, List.map_congr_left (g := id),
      List.map_id]
    intro line hline
    have hlast := getLast?_ne_return_of_trimmed (hlines line hline).2
    rw [Text.dropReturn_of_getLast? hlast, String.ofList_toList, id]
  refine ⟨lines.map (renewLine names), ?_, ?_, ?_⟩
  · rw [renew, hread, List.map_map]
    rfl
  · rw [lines_renew_of_keepsLines h.keepsLines, hread]
    exact List.map_congr_left fun line hline => newLine_eq h (hlines line hline).2
  · rw [List.forall₂_map_right_iff, List.forall₂_same]
    exact fun line hline => isRenewal_renewLine h (hlines line hline).2

/-- A tag, a segment in another directory, a blank line and a file without a new name. -/
theorem lines_renew_of_arePlainNames_five :
    let names : NewNames := .ofList [("seg.mp4", "seg-low.mp4")]
    let lines := ["#EXT-X-MAP:URI=\"seg.mp4\"", "sub/seg.mp4", "", "seg.mp4", "other.mp4"]
    ArePlainNames names ∧ (∀ line ∈ lines, '\n' ∉ line.toList ∧ Text.trimmed line = line) ∧
      ∃ first, Text.lines (renew names (String.join (lines.map (· ++ "\n")))) =
        [first, "sub/seg-low.mp4", "", "seg-low.mp4", "other.mp4"] := by
  intro names lines
  have hlookup (name : String) :
      names[name]? = if "seg.mp4" = name then some "seg-low.mp4" else none := by
    simp [names, Std.TreeMap.ofList_singleton, Std.TreeMap.getElem?_insert]
  have hnames : ArePlainNames names := by
    constructor
    · intro name hname
      rw [Std.TreeMap.mem_iff_isSome_getElem?, hlookup] at hname
      obtain rfl : "seg.mp4" = name := by
        by_contra hne
        simp [hne] at hname
      decide
    · intro name new hnew
      rw [hlookup, Option.ite_none_right_eq_some, Option.some_inj] at hnew
      obtain ⟨rfl, rfl⟩ := hnew
      decide
  have hlines : ∀ line ∈ lines, '\n' ∉ line.toList ∧ Text.trimmed line = line := by
    decide +kernel
  refine ⟨hnames, hlines, ?_⟩
  obtain ⟨lines', -, hread, hrenewed⟩ := lines_renew_of_arePlainNames hnames hlines
  have hnew : names["seg.mp4"]? = some "seg-low.mp4" := by rw [hlookup, if_pos rfl]
  have hblank : ∀ ref ∈ Reference.ofLine? "", ¬ ref.IsKnown names := by
    rw [show Reference.ofLine? "" = none by decide +kernel]
    simp
  have hother : ∀ ref ∈ Reference.ofLine? "other.mp4", ¬ ref.IsKnown names := by
    rw [show Reference.ofLine? "other.mp4" = some (.media "other.mp4") by decide +kernel]
    rintro _ ⟨⟩ ⟨c, hc, hmem⟩
    rw [show (Path.mk "other.mp4").components.getLast? = some (.name "other.mp4") by
      decide +kernel] at hc
    cases hc
    rw [Std.TreeMap.mem_iff_isSome_getElem?, hlookup] at hmem
    revert hmem
    decide
  obtain ⟨first, _, -, h₁, rfl⟩ := List.forall₂_cons_left_iff.1 hrenewed
  obtain ⟨second, _, hsecond, h₂, rfl⟩ := List.forall₂_cons_left_iff.1 h₁
  obtain ⟨third, _, hthird, h₃, rfl⟩ := List.forall₂_cons_left_iff.1 h₂
  obtain ⟨fourth, _, hfourth, h₄, rfl⟩ := List.forall₂_cons_left_iff.1 h₃
  obtain ⟨fifth, _, hfifth, h₅, rfl⟩ := List.forall₂_cons_left_iff.1 h₄
  obtain rfl := List.forall₂_nil_left_iff.1 h₅
  refine ⟨first, hread.trans ?_⟩
  rw [hsecond.directory "seg.mp4" _ "sub" hnew (by decide) (by decide) (by decide)
      (by decide +kernel) rfl, hthird.unknown hblank,
    hfourth.name "seg.mp4" _ hnew (by decide) rfl, hfifth.unknown hother]
  rfl

/-- The first attribute is empty, or the new name has two lines, or the old name is a step, or a
doubled slash stands in front of it. -/
theorem not_isRenewal_of_odd_names :
    let names : NewNames := .ofList [("a", "b"), ("two", "b\nc"), ("..", "b")]
    (uriAt? "URI=\"\",URI=\"a\"".toList).map Prod.fst = some [] ∧ "" ∉ names ∧
    renew names "#EXT-X-MAP:URI=\"\",URI=\"a\"\n" = "#EXT-X-MAP:URI=\"\",URI=\"b\"\n" ∧
    Text.lines (renew names "two\n") = ["b", "c"] ∧
    renew names "d/..\n" = "d/..\n" ∧
    renew names "d//a\n" = "d/b\n" := by
  decide +kernel

end Playlist

end Montage
