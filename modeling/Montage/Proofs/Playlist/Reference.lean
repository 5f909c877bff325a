import Montage.Playlist.Reference
import Montage.Proofs.LastName
import Montage.Proofs.Text.Lines
import Montage.Proofs.Text.Search

/-!
# References that get new names

What a line of a playlist refers to, and what it refers to once the playlist is renewed.
On a media line the last name of the reference changes and its directory stays
(`renewMedia_eq`). In a tag the first occurrence of the reference changes, wherever it
stands in the line; that is the attribute itself only in some lines (`IsPlainTag`).
-/

namespace Montage

namespace Playlist

inductive Reference where
  | media (uri : String)
  | tag (uri : String)
  deriving DecidableEq, Repr

namespace Reference

def uri : Reference → String
  | media uri | tag uri => uri

/-- What a line refers to: the first `URI` attribute of a tag that names a file, or else the
line itself, if it is neither blank nor a comment. -/
def ofLine? (line : String) : Option Reference :=
  if namesFile line then (uriIn? line.toList).map fun uri => tag (String.ofList uri)
  else if Text.trimmed line = "" ∨ Text.startsWith "#" (Text.trimmed line) then none
  else some (media (Text.trimmed line))

/-- The reference to a file in whichever directory is looked up under the name of the file. -/
def IsLookedUp : Reference → Prop
  | media _ => True
  | tag uri => '/' ∉ uri.toList

instance : DecidablePred IsLookedUp
  | media _ => .isTrue trivial
  | tag uri => inferInstanceAs (Decidable ('/' ∉ uri.toList))

def renamed (new : String) : Reference → Reference
  | media uri => media ((Path.mk uri).withName new).text
  | tag uri => tag (if '/' ∈ uri.toList then uri else new)

end Reference

def uriAt? (cs : List Char) : Option (List Char × List Char) :=
  (uriStart.isPrefixOf? cs).bind (Text.splitFirst? (· == '"'))

theorem uriIn?_cons (c : Char) (cs : List Char) :
    uriIn? (c :: cs) =
      match uriAt? (c :: cs) with
      | some (d :: uri, _) => some (d :: uri)
      | _ => uriIn? cs := rfl

/-- Where an attribute is opened behind it, a text has its own attribute in front of any rest. -/
theorem uriAt?_append (c : Char) (before rest : List Char) :
    uriAt? (c :: (before ++ uriStart) ++ rest) =
      (uriAt? (c :: (before ++ uriStart))).map fun x => (x.1, x.2 ++ rest) := by
  cases hopened : uriStart.isPrefixOf? (c :: (before ++ uriStart)) with
  | none =>
    have hnone : uriStart.isPrefixOf? (c :: (before ++ uriStart) ++ rest) = none := by
      rw [Text.isPrefixOf?_eq_none_iff] at hopened ⊢
      have hlength : uriStart.length ≤ (c :: (before ++ uriStart)).length := by
        simp only [List.length_cons, List.length_append]
        omega
      exact fun hstart =>
        hopened (List.prefix_of_prefix_length_le hstart (List.prefix_append _ rest) hlength)
    rw [uriAt?, uriAt?, hopened, hnone]
    rfl
  | some value =>
    have hvalue := List.isPrefixOf?_eq_some_iff_append_eq.1 hopened
    have hquote : '"' ∈ value := by
      have hne : value ≠ [] := by
        rintro rfl
        have hlength := congrArg List.length hvalue
        simp [uriStart] at hlength
      have hlast := congrArg List.getLast? hvalue
      rw [List.getLast?_append_of_ne_nil _ hne] at hlast
      apply List.mem_of_getLast?
      rw [hlast]
      simp [uriStart, List.getLast?_cons]
    obtain ⟨⟨a, b⟩, hsplit⟩ : ∃ x, Text.splitFirst? (· == '"') value = some x := by
      rw [← Option.ne_none_iff_exists', Ne, Text.splitFirst?_eq_none_iff]
      intro hall
      simpa using hall _ hquote
    obtain ⟨ha, d, hd, hparts⟩ := Text.splitFirst?_eq_some hsplit
    have hopened' : uriStart.isPrefixOf? (c :: (before ++ uriStart) ++ rest) =
        some (value ++ rest) := by
      rw [List.isPrefixOf?_eq_some_iff_append_eq, ← hvalue, List.append_assoc]
    have hsplit' : Text.splitFirst? (· == '"') (value ++ rest) = some (a, b ++ rest) := by
      rw [hparts, List.append_assoc]
      exact Text.splitFirst?_append ha hd
    rw [uriAt?, uriAt?, hopened, hopened', Option.bind_some, Option.bind_some, hsplit, hsplit']
    rfl

theorem uriAt?_uriStart {uri after : List Char} (hquote : '"' ∉ uri) :
    uriAt? (uriStart ++ (uri ++ '"' :: after)) = some (uri, after) := by
  have hopened : uriStart.isPrefixOf? (uriStart ++ (uri ++ '"' :: after)) =
      some (uri ++ '"' :: after) := List.isPrefixOf?_eq_some_iff_append_eq.2 rfl
  rw [uriAt?, hopened, Option.bind_some]
  exact Text.splitFirst?_append_of_not_mem hquote after

theorem uriIn?_append {before uri after : List Char} (hbefore : uriIn? (before ++ uriStart) = none)
    (hne : uri ≠ []) (hquote : '"' ∉ uri) :
    uriIn? (before ++ uriStart ++ (uri ++ '"' :: after)) = some uri := by
  induction before with
  | nil =>
    obtain ⟨d, uri, rfl⟩ := List.exists_cons_of_ne_nil hne
    have hat : uriAt? (uriStart ++ (d :: uri ++ '"' :: after)) = some (d :: uri, after) :=
      uriAt?_uriStart hquote
    obtain ⟨c, rest, hcons⟩ : ∃ c rest, uriStart = c :: rest := ⟨_, _, rfl⟩
    rw [List.nil_append, hcons, List.cons_append, uriIn?_cons, ← List.cons_append, ← hcons, hat]
  | cons c before ih =>
    rw [List.cons_append, uriIn?_cons] at hbefore
    rw [List.cons_append, List.cons_append, uriIn?_cons, ← List.cons_append, uriAt?_append]
    -- an attribute in front is empty, and stays empty with the rest behind it
    cases hat : uriAt? (c :: (before ++ uriStart)) with
    | none =>
      rw [hat] at hbefore
      exact ih hbefore
    | some x =>
      obtain ⟨value, more⟩ := x
      rw [hat] at hbefore
      cases value with
      | nil => exact ih hbefore
      | cons d value => cases hbefore

theorem exists_of_uriIn? {cs uri : List Char} (h : uriIn? cs = some uri) :
    ∃ before after, cs = before ++ uriStart ++ (uri ++ '"' :: after) ∧
      uriIn? (before ++ uriStart) = none ∧ uri ≠ [] ∧ '"' ∉ uri := by
  induction cs with
  | nil => cases h
  | cons c cs ih =>
    rw [uriIn?_cons] at h
    split at h
    · rename_i d value after hat
      cases h
      obtain ⟨rest, hopened, hsplit⟩ := Option.bind_eq_some_iff.1 hat
      obtain ⟨hquote, e, he, rfl⟩ := Text.splitFirst?_eq_some hsplit
      obtain rfl : e = '"' := by simpa using he
      refine ⟨[], after, (List.isPrefixOf?_eq_some_iff_append_eq.1 hopened).symm, by decide,
        List.cons_ne_nil _ _, fun hmem => ?_⟩
      simpa using hquote _ hmem
    · rename_i hat
      obtain ⟨before, after, rfl, hbefore, hne, hquote⟩ := ih h
      refine ⟨c :: before, after, rfl, ?_, hne, hquote⟩
      rw [List.cons_append, uriIn?_cons]
      split
      · rename_i d value more hown
        have hfull := uriAt?_append c before (uri ++ '"' :: after)
        rw [hown] at hfull
        exact absurd hfull (hat d value _)
      · exact hbefore

def suffixed (name suffix : String) : String := (Path.splitName name).1 ++ suffix

/-- With the suffix a name stays a name, within its line and within an attribute. -/
structure IsPlainSuffix (name suffix : String) : Prop where
  slash : '/' ∉ suffix.toList
  line : '\n' ∉ suffix.toList
  quote : '"' ∉ suffix.toList
  other : ∃ c ∈ (suffixed name suffix).toList, c ≠ '.'
  last : ∀ c ∈ (suffixed name suffix).toList.getLast?, Text.isBlank c = false

instance (name suffix : String) : Decidable (IsPlainSuffix name suffix) :=
  decidable_of_iff
    (('/' ∉ suffix.toList ∧ '\n' ∉ suffix.toList ∧ '"' ∉ suffix.toList) ∧
      (suffixed name suffix).toList.any (· != '.') = true ∧
        (suffixed name suffix).toList.getLast?.all (!Text.isBlank ·) = true) <| by
    have hother : (suffixed name suffix).toList.any (· != '.') = true ↔
        ∃ c ∈ (suffixed name suffix).toList, c ≠ '.' := by simp
    have hlast : (suffixed name suffix).toList.getLast?.all (!Text.isBlank ·) = true ↔
        ∀ c ∈ (suffixed name suffix).toList.getLast?, Text.isBlank c = false := by
      simp [Option.all_eq_true]
    rw [hother, hlast]
    exact ⟨fun h => ⟨h.1.1, h.1.2.1, h.1.2.2, h.2.1, h.2.2⟩,
      fun h => ⟨⟨h.slash, h.line, h.quote⟩, h.other, h.last⟩⟩

theorem forall_mem_suffixed {name suffix : String} {P : Char → Prop} (hname : ∀ c ∈ name.toList, P c)
    (hsuffix : ∀ c ∈ suffix.toList, P c) : ∀ c ∈ (suffixed name suffix).toList, P c := by
  obtain ⟨rest, hrest, _⟩ := Path.exists_eq_append_stem name
  rw [hrest, String.toList_append, List.forall_mem_append] at hname
  rw [suffixed, String.toList_append, List.forall_mem_append]
  exact ⟨hname.1, hsuffix⟩

theorem not_mem_suffixed {name suffix : String} {c : Char} (hname : c ∉ name.toList)
    (hsuffix : c ∉ suffix.toList) : c ∉ (suffixed name suffix).toList := by
  have hall : ∀ d ∈ (suffixed name suffix).toList, d ≠ c := by
    apply forall_mem_suffixed
    · rintro d hd rfl
      exact hname hd
    · rintro d hd rfl
      exact hsuffix hd
  exact fun hmem => hall c hmem rfl

theorem head?_suffixed {name suffix : String} (hname : name ≠ "") :
    (suffixed name suffix).toList.head? = name.toList.head? := by
  obtain ⟨rest, hrest, hne⟩ := Path.exists_eq_append_stem name
  obtain ⟨c, cs, hstem⟩ := List.exists_cons_of_ne_nil (mt String.toList_eq_nil_iff.1 (hne hname))
  have hhead := congrArg (fun s : String => s.toList.head?) hrest
  simp only [String.toList_append, hstem] at hhead
  rw [suffixed, String.toList_append, hstem]
  exact hhead.symm

namespace IsPlainSuffix

variable {name suffix : String}

theorem isName_suffixed (h : IsPlainSuffix name suffix) (hname : '/' ∉ name.toList) :
    Path.IsName (suffixed name suffix) :=
  ⟨not_mem_suffixed hname h.slash, h.other⟩

theorem toList_ne_nil (h : IsPlainSuffix name suffix) : (suffixed name suffix).toList ≠ [] := by
  obtain ⟨c, hc, _⟩ := h.other
  exact List.ne_nil_of_mem hc

theorem getLast?_append (h : IsPlainSuffix name suffix) (front : String) :
    ∀ c ∈ (front ++ suffixed name suffix).toList.getLast?, Text.isBlank c = false := by
  rw [String.toList_append, List.getLast?_append_of_ne_nil _ h.toList_ne_nil]
  exact h.last

end IsPlainSuffix

def GivesSuffixes (names : NewNames) : Prop :=
  ∀ name new, names[name]? = some new → name ≠ "" ∧ '/' ∉ name.toList ∧
    ∃ suffix, IsPlainSuffix name suffix ∧ new = suffixed name suffix

variable {names : NewNames} {line uri name new : String}

theorem head?_of_namesFile (h : namesFile line = true) : line.toList.head? = some '#' := by
  rw [namesFile, Bool.or_eq_true, Text.startsWith_iff, Text.startsWith_iff] at h
  rcases h with ⟨rest, hrest⟩ | ⟨rest, hrest⟩ <;> rw [← hrest] <;> rfl

theorem startsWith_hash_iff {s : String} :
    Text.startsWith "#" s = true ↔ s.toList.head? = some '#' := by
  rw [Text.startsWith_iff]
  cases s.toList with
  | nil => simp
  | cons c cs => simp [eq_comm]

theorem head?_trimmed_of_hash (h : line.toList.head? = some '#') :
    (Text.trimmed line).toList.head? = some '#' := by
  obtain ⟨rest, hrest⟩ := List.head?_eq_some_iff.1 h
  rw [Text.trimmed, hrest, String.toList_ofList]
  exact Text.head?_trim_of_not_isBlank (by decide)

namespace Reference

theorem ofLine?_eq_tag_iff :
    ofLine? line = some (.tag uri) ↔ namesFile line = true ∧ uriIn? line.toList = some uri.toList := by
  unfold ofLine?
  by_cases htag : namesFile line = true
  · rw [if_pos htag, Option.map_eq_some_iff]
    constructor
    · rintro ⟨cs, hcs, heq⟩
      obtain rfl := Reference.tag.inj heq
      rw [String.toList_ofList]
      exact ⟨htag, hcs⟩
    · rintro ⟨_, hcs⟩
      exact ⟨_, hcs, by rw [String.ofList_toList]⟩
  · rw [if_neg htag]
    split_ifs <;> simp [htag]

theorem ofLine?_eq_media_iff :
    ofLine? line = some (.media uri) ↔ uri = Text.trimmed line ∧ uri ≠ "" ∧
      uri.toList.head? ≠ some '#' := by
  unfold ofLine?
  by_cases htag : namesFile line = true
  · have hhash := head?_trimmed_of_hash (head?_of_namesFile htag)
    rw [if_pos htag, Option.map_eq_some_iff]
    constructor
    · rintro ⟨_, _, heq⟩
      cases heq
    · rintro ⟨rfl, _, hhead⟩
      exact absurd hhash hhead
  · have hhash : uri.toList.head? ≠ some '#' ↔ ¬ Text.startsWith "#" uri = true := by
      rw [startsWith_hash_iff]
    rw [if_neg htag, hhash]
    split_ifs with hnone
    · simp only [false_iff, not_and]
      rintro rfl hne
      simpa [hne] using hnone
    · rw [not_or] at hnone
      simp only [Option.some.injEq, Reference.media.injEq]
      constructor
      · rintro rfl
        exact ⟨rfl, hnone⟩
      · rintro ⟨rfl, _⟩
        rfl

theorem renewLine_of_media (h : ofLine? line = some (.media uri)) :
    renewLine names line = renewMedia names uri := by
  obtain ⟨rfl, hne, hhead⟩ := ofLine?_eq_media_iff.1 h
  have hhash : ¬ Text.startsWith "#" line = true := by
    rw [startsWith_hash_iff]
    exact mt head?_trimmed_of_hash hhead
  simp only [renewLine]
  rw [if_neg hne, if_neg hhash]

theorem renewLine_of_tag (h : ofLine? line = some (.tag uri)) :
    renewLine names line =
      match names[uri]? with
      | some new => String.ofList (Text.replaceFirst uri.toList new.toList line.toList)
      | none => line := by
  obtain ⟨htag, huri⟩ := ofLine?_eq_tag_iff.1 h
  have hhash := head?_of_namesFile htag
  have hne : Text.trimmed line ≠ "" := by
    intro hempty
    have hhead := head?_trimmed_of_hash hhash
    rw [hempty] at hhead
    cases hhead
  simp only [renewLine]
  rw [if_neg hne, if_pos (startsWith_hash_iff.2 hhash), renewTag, if_pos htag, huri]
  cases hnew : names[uri]? <;> simp [hnew]

end Reference

theorem renewMedia_eq (hkeys : ∀ whole, names[uri]? = some whole → '/' ∉ uri.toList)
    (hname : (Path.mk uri).fileName? = some name) (hnew : names[name]? = some new) :
    renewMedia names uri = ((Path.mk uri).withName new).text := by
  unfold renewMedia
  cases hwhole : names[uri]? with
  | some whole =>
    have hslash := hkeys whole hwhole
    have hmem := Path.mem_pieces_of_fileName? hname
    rw [Path.pieces_of_not_mem hslash, List.mem_singleton] at hmem
    subst hmem
    rw [hwhole] at hnew
    cases hnew
    rw [Path.withName_of_not_mem hslash]
  | none =>
    simp only [Path.fileName, hname, Option.getD_some, hnew]
    cases hparent : (Path.mk uri).parent? with
    | none => rw [Path.withName, hparent, Option.getD_none, Path.join_empty]
    | some parent =>
      rw [Path.withName, hparent, Option.getD_some]
      by_cases hempty : parent.text = ""
      · obtain ⟨text⟩ := parent
        obtain rfl : text = "" := hempty
        simp
      · simp [hempty]

def KeepsLines (names : NewNames) : Prop :=
  ∀ name new : String, names[name]? = some new → '\n' ∉ name.toList → '\n' ∉ new.toList

theorem GivesSuffixes.keepsLines (hnames : GivesSuffixes names) : KeepsLines names := by
  intro name new hnew h
  obtain ⟨_, _, suffix, hsuffix, rfl⟩ := hnames name new hnew
  exact not_mem_suffixed h hsuffix.line

theorem not_mem_renewTag (hnames : KeepsLines names) (h : '\n' ∉ line.toList) :
    '\n' ∉ (renewTag names line).toList := by
  unfold renewTag
  split_ifs
  · split
    · rename_i uri huri
      split
      · rename_i new hnew
        obtain ⟨before, after, hline, _⟩ := exists_of_uriIn? huri
        have hkey : '\n' ∉ (String.ofList uri).toList := by
          rw [String.toList_ofList]
          rw [hline] at h
          simp_all
        have hnew := hnames _ _ hnew hkey
        rw [String.toList_ofList, Text.replaceFirst]
        split
        · rename_i a b hfind
          rw [Text.eq_append_of_find? hfind] at h
          simp_all
        · exact h
      · exact h
    · exact h
  · exact h

theorem not_mem_renewMedia (hnames : KeepsLines names) (h : '\n' ∉ uri.toList) :
    '\n' ∉ (renewMedia names uri).toList := by
  have hall : ∀ c ∈ (Path.mk uri).text.toList, c ≠ '\n' := by
    rintro c hc rfl
    exact h hc
  unfold renewMedia
  split
  · rename_i new hnew
    exact hnames _ _ hnew h
  · simp only
    split
    · rename_i new hnew
      have hfile : '\n' ∉ (Path.mk uri).fileName.toList := by
        cases hname : (Path.mk uri).fileName? with
        | none => simp [Path.fileName, hname]
        | some name =>
          rw [Path.fileName_of_eq_some hname]
          exact fun hmem =>
            h (Path.mem_text_of_mem_pieces (Path.mem_pieces_of_fileName? hname) hmem)
      have hnew := hnames _ _ hnew hfile
      split
      · rename_i parent hparent
        have hdirectory := Path.forall_mem_text_parent hparent hall (by decide)
        split_ifs
        · exact hnew
        · have hjoin : ∀ c ∈ (parent.join ⟨new⟩).text.toList, c ≠ '\n' := by
            refine Path.forall_mem_text_join hdirectory ?_ (by decide)
            rintro c hc rfl
            exact hnew hc
          exact fun hmem => hjoin _ hmem rfl
      · exact hnew
    · exact h

/-- No line is broken in two. -/
theorem not_mem_renewLine (hnames : KeepsLines names) (h : '\n' ∉ line.toList) :
    '\n' ∉ (renewLine names line).toList := by
  have htrimmed : '\n' ∉ (Text.trimmed line).toList := by
    rw [Text.trimmed, String.toList_ofList]
    exact mt Text.mem_of_mem_trim h
  simp only [renewLine]
  split_ifs
  · simp
  · exact not_mem_renewTag hnames h
  · exact not_mem_renewMedia hnames htrimmed

def newLine (names : NewNames) (line : String) : String :=
  String.ofList (Text.dropReturn (renewLine names line).toList)

theorem lines_renew_of_keepsLines (hnames : KeepsLines names) (playlist : String) :
    Text.lines (renew names playlist) = (Text.lines playlist).map (newLine names) := by
  have hlines : ∀ line ∈ (Text.lines playlist).map (renewLine names), '\n' ∉ line.toList := by
    refine List.forall_mem_map.2 fun line hline => not_mem_renewLine hnames ?_
    obtain ⟨cs, hcs, rfl⟩ := List.mem_map.1 hline
    rw [String.toList_ofList]
    exact Text.not_mem_of_mem_linesOf hcs
  have hjoin := Text.lines_join hlines
  rw [List.map_map, List.map_map] at hjoin
  exact hjoin

theorem lines_renew (hnames : GivesSuffixes names) (playlist : String) :
    Text.lines (renew names playlist) = (Text.lines playlist).map (newLine names) :=
  lines_renew_of_keepsLines hnames.keepsLines playlist

theorem ofLine?_newLine_of_media (hnames : GivesSuffixes names)
    (h : Reference.ofLine? line = some (.media uri))
    (hlast : (Path.mk uri).pieces.getLast? = some name) (hname : name ≠ "" ∧ name ≠ "." ∧ name ≠ "..")
    (hnew : names[name]? = some new) :
    Reference.ofLine? (newLine names line) = some (.media ((Path.mk uri).withName new).text) := by
  obtain ⟨hkey, hslash, suffix, hsuffix, rfl⟩ := hnames name new hnew
  obtain ⟨rfl, hne, hhash⟩ := Reference.ofLine?_eq_media_iff.1 h
  have hplain := hsuffix.isName_suffixed hslash
  have hidle : Path.isIdle name = false := by simp [Path.isIdle, hname.1, hname.2.1]
  have hsplit := (List.dropLast_append_getLast? name hlast).symm
  have hhead := Path.head?_withName hsplit hidle hplain.slash (head?_suffixed hkey)
  have hends : ∀ c ∈ ((Path.mk (Text.trimmed line)).withName (suffixed name suffix)).text.toList.getLast?,
      Text.isBlank c = false := by
    obtain ⟨front, hfront⟩ :=
      Path.exists_text_join ((Path.mk (Text.trimmed line)).parent?.getD ⟨""⟩) ⟨suffixed name suffix⟩
    rw [Path.withName, hfront]
    exact hsuffix.getLast?_append _
  have hrenewed := (Reference.renewLine_of_media h).trans
    (renewMedia_eq (fun _ hwhole => (hnames _ _ hwhole).2.1)
      (Path.fileName?_of_getLast? hlast hname) hnew)
  generalize ((Path.mk (Text.trimmed line)).withName (suffixed name suffix)).text = text at *
  have hline : newLine names line = text := by
    have hreturn : text.toList.getLast? ≠ some '\r' := by
      intro heq
      have hblank := hends _ heq
      revert hblank
      decide
    rw [newLine, hrenewed, Text.dropReturn_of_getLast? hreturn, String.ofList_toList]
  have hstarts : ∀ c ∈ text.toList.head?, Text.isBlank c = false := by
    rw [hhead, Text.trimmed, String.toList_ofList]
    exact Text.head?_trim
  have htext : text ≠ "" := by
    rintro rfl
    exact hne (String.toList_eq_nil_iff.1 (List.head?_eq_none_iff.1 hhead.symm))
  rw [hline, Reference.ofLine?_eq_media_iff, Text.trimmed, Text.trim_eq_self hstarts hends,
    String.ofList_toList, hhead]
  exact ⟨rfl, htext, hhash⟩

theorem namesFile_append (before rest : List Char) :
    namesFile (String.ofList (before ++ uriStart ++ rest)) =
      namesFile (String.ofList (before ++ "URI=".toList)) := by
  have htext : before ++ uriStart ++ rest = before ++ "URI=".toList ++ '"' :: rest := by
    simp [uriStart]
  rw [Bool.eq_iff_iff]
  simp only [namesFile, Bool.or_eq_true, Text.startsWith_iff, String.toList_ofList, htext]
  rw [Text.prefix_append_cons_iff (by decide), Text.prefix_append_cons_iff (by decide)]

theorem ofLine?_attribute {before rest value : List Char}
    (htag : namesFile (String.ofList (before ++ uriStart ++ rest)) = true)
    (hopened : uriIn? (before ++ uriStart) = none) (hne : value ≠ []) (hquote : '"' ∉ value)
    (after : List Char) :
    Reference.ofLine? (String.ofList
      (Text.dropReturn (before ++ uriStart ++ (value ++ '"' :: after)))) =
        some (.tag (String.ofList value)) := by
  rw [← List.append_assoc, Text.dropReturn_append_cons (by decide), List.append_assoc,
    Reference.ofLine?_eq_tag_iff, namesFile_append, ← namesFile_append before rest,
    String.toList_ofList, String.toList_ofList]
  exact ⟨htag, uriIn?_append hopened hne hquote⟩

theorem ofLine?_newLine_of_none (h : Reference.ofLine? line = some (.tag uri))
    (hnone : names[uri]? = none) :
    Reference.ofLine? (newLine names line) = some (.tag uri) := by
  obtain ⟨htag, huri⟩ := Reference.ofLine?_eq_tag_iff.1 h
  obtain ⟨before, after, hline, hopened, hne, hquote⟩ := exists_of_uriIn? huri
  have hwhole : newLine names line =
      String.ofList (Text.dropReturn (before ++ uriStart ++ (uri.toList ++ '"' :: after))) := by
    rw [newLine, Reference.renewLine_of_tag h, hnone, hline]
  rw [← String.ofList_toList (s := line), hline] at htag
  rw [hwhole, ofLine?_attribute htag hopened hne hquote, String.ofList_toList]

/-- The reference in a tag stands nowhere in front of its attribute. -/
def IsPlainTag (line uri : String) : Prop :=
  ∃ before after, uriIn? (before ++ uriStart) = none ∧
    Text.find? uri.toList line.toList = some (before ++ uriStart, '"' :: after)

theorem ofLine?_newLine_of_some (hnames : GivesSuffixes names)
    (h : Reference.ofLine? line = some (.tag uri)) (hplain : IsPlainTag line uri)
    (hnew : names[uri]? = some new) :
    Reference.ofLine? (newLine names line) = some (.tag new) := by
  obtain ⟨htag, huri⟩ := Reference.ofLine?_eq_tag_iff.1 h
  obtain ⟨_, _, _, _, _, hquote⟩ := exists_of_uriIn? huri
  obtain ⟨before, after, hopened, hfind⟩ := hplain
  obtain ⟨_, hslash, suffix, hsuffix, rfl⟩ := hnames uri new hnew
  have hwhole : newLine names line = String.ofList (Text.dropReturn
      (before ++ uriStart ++ ((suffixed uri suffix).toList ++ '"' :: after))) := by
    rw [newLine, Reference.renewLine_of_tag h, hnew]
    simp only [Text.replaceFirst, hfind, String.toList_ofList, List.append_assoc]
  rw [← String.ofList_toList (s := line), Text.eq_append_of_find? hfind, List.append_assoc] at htag
  rw [hwhole, ofLine?_attribute htag hopened hsuffix.toList_ne_nil
    (not_mem_suffixed hquote hsuffix.quote), String.ofList_toList]

def Reference.IsPlainIn (line : String) : Reference → Prop
  | media _ => True
  | tag uri => '/' ∉ uri.toList → IsPlainTag line uri

/-- The new line refers to the file with its new name, as far as the reference is looked up. -/
theorem ofLine?_newLine {ref : Reference} (hnames : GivesSuffixes names)
    (h : Reference.ofLine? line = some ref) (hplain : ref.IsPlainIn line)
    (hlast : (Path.mk ref.uri).pieces.getLast? = some name) (hname : name ≠ "" ∧ name ≠ "." ∧ name ≠ "..")
    (hnew : names[name]? = some new) :
    Reference.ofLine? (newLine names line) = some (ref.renamed new) := by
  cases ref with
  | media uri => exact ofLine?_newLine_of_media hnames h hlast hname hnew
  | tag uri =>
    by_cases hslash : '/' ∈ uri.toList
    · have hnone : names[uri]? = none :=
        Option.eq_none_iff_forall_ne_some.2 fun other hother => (hnames uri other hother).2.1 hslash
      rw [ofLine?_newLine_of_none h hnone, Reference.renamed, if_pos hslash]
    · obtain rfl : uri = name := by
        rw [Reference.uri, Path.pieces_of_not_mem hslash] at hlast
        exact Option.some.inj hlast
      rw [ofLine?_newLine_of_some hnames h (hplain hslash) hnew, Reference.renamed, if_neg hslash]

end Playlist

end Montage
