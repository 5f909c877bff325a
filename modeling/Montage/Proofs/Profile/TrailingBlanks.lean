import Mathlib.Data.Fintype.EquivFin
import Mathlib.Data.String.Basic
import Montage.Proofs.Profile.Loading
import Montage.Proofs.Profile.PhysicalLines

/-!
# What blanks at the ends of lines change

Blanks behind a first line, behind a last one and behind a whole entry change nothing that is
loaded, and neither do blank lines behind complete entries. A blank behind the backslash of a
continuation that goes on can change what is loaded (`exists_not_loadAlike`), and a blank line
behind an open entry completes it (`loadAlike_of_padded`).

That a load changes is seen on one profile. It has no identifier, so it is the first of all and is
loaded whatever else a text says (`exists_get_of_leading`). If it stands behind an entry that goes
on then the line of its name is part of this entry, and the profile does not get the name
(`name_not_mem_of_pending`).
-/

namespace Montage

namespace Properties

variable {pending line blanks : List Char} {lines : List (List Char)}

theorem mem_of_keyValue?_append {key value : String} {sign c : Char} {cs : List Char}
    (hsign : sign ∈ pending) (hequals : (sign == '=' || sign == ':') = true)
    (h : keyValue? (pending ++ cs) = some (key, value)) (hc : c ∈ cs)
    (hblank : Text.isBlank c = false) : c ∈ value.toList := by
  unfold keyValue? at h
  cases hsplit : Text.splitFirst? (fun c => c == '=' || c == ':') pending with
  | none =>
    have hplain := Text.splitFirst?_eq_none_iff.1 hsplit sign hsign
    rw [hequals] at hplain
    cases hplain
  | some parts =>
    obtain ⟨front, rest⟩ := parts
    obtain ⟨hfront, first, hfirst, rfl⟩ := Text.splitFirst?_eq_some hsplit
    rw [List.append_assoc, List.cons_append, Text.splitFirst?_append hfront hfirst] at h
    dsimp only at h
    split_ifs at h
    rw [← (Prod.mk.inj (Option.some_inj.1 h)).2, String.toList_ofList]
    exact Text.mem_trim hblank (List.mem_append_right rest hc)

/-- What is pending without a sign becomes part of the key. -/
theorem keyValue?_append_of_pending {key : String} {cs : List Char} (hkey : IsKey key)
    (hplain : ∀ c ∈ pending, (c == '=' || c == ':') = false)
    (hhead : ∀ c ∈ pending.head?, Text.isBlank c = false) (hpending : pending ≠ []) :
    keyValue? (pending ++ (key.toList ++ ' ' :: '=' :: cs)) =
      some (String.ofList (pending ++ key.toList), String.ofList (Text.trim cs)) := by
  have hfront : ∀ c ∈ pending ++ key.toList ++ [' '], (c == '=' || c == ':') = false := by
    rw [List.forall_mem_append, List.forall_mem_append, List.forall_mem_singleton]
    refine ⟨⟨hplain, fun c hc => ?_⟩, rfl⟩
    obtain ⟨hequals, hcolon, -⟩ := hkey.1 c hc
    simp [hequals, hcolon]
  have htext : pending ++ (key.toList ++ ' ' :: '=' :: cs) =
      (pending ++ key.toList ++ [' ']) ++ '=' :: cs := by simp
  have htrim : Text.trim (pending ++ key.toList ++ [' ']) = pending ++ key.toList := by
    rw [Text.trim_append_blanks (List.forall_mem_singleton.2 rfl)]
    refine Text.trim_eq_self ?_ ?_
    · rw [List.head?_append_of_ne_nil _ hpending]
      exact hhead
    · rw [List.getLast?_append_of_ne_nil _ hkey.ne_nil]
      exact fun c hc => (hkey.1 c (List.mem_of_getLast? hc)).2.2.2
  have hempty : (pending ++ key.toList).isEmpty = false := by simp [hpending]
  rw [htext, keyValue?, Text.splitFirst?_append hfront rfl]
  simp only [htrim, hempty, Bool.false_eq_true, if_false]

/-- Behind something that is pending, the text of a property does not write this property. -/
theorem keyValue?_append_ne {key value : String} (hkey : IsKey key) (hvalue : '=' ∉ value.toList)
    (hhead : ∀ c ∈ pending.head?, Text.isBlank c = false) (hpending : pending ≠ []) :
    keyValue? (pending ++ (key.toList ++ ' ' :: '=' :: ' ' :: value.toList)) ≠
      some (key, value) := by
  intro h
  by_cases hplain : ∀ c ∈ pending, (c == '=' || c == ':') = false
  · rw [keyValue?_append_of_pending hkey hplain hhead hpending] at h
    have hfront := congrArg String.toList (Prod.mk.inj (Option.some_inj.1 h)).1
    rw [String.toList_ofList, List.append_left_eq_self] at hfront
    exact hpending hfront
  · simp only [not_forall, Bool.not_eq_false] at hplain
    obtain ⟨sign, hsign, hequals⟩ := hplain
    exact hvalue (mem_of_keyValue?_append hsign hequals h (by simp) rfl)

def lineOf (property : String × String) : List Char :=
  property.1.toList ++ " = ".toList ++ property.2.toList

theorem writtenOn_lineOf (properties : List (String × String)) :
    WrittenOn properties (properties.map lineOf) := by
  induction properties with
  | nil => exact .done
  | cons _ _ ih => exact .line ih

theorem propertiesFrom_lineOf {property : String × String}
    (h : IsKey property.1 ∧ IsValueText property.2.toList) (hpending : pending ≠ []) :
    propertiesFrom pending (lineOf property :: lines) =
      (keyValue? (pending ++ lineOf property)).toList ++ propertiesFrom [] lines := by
  have hslash : '\\' ∉ lineOf property := by
    rw [lineOf, List.append_assoc]
    exact not_mem_of_isKey h.1 h.2.1
  have hstart : Text.trimStart (lineOf property) = lineOf property := by
    rw [lineOf, List.append_assoc]
    exact h.1.trimStart_append _
  rw [propertiesFrom_cons, readLine_of_ne_nil hpending, hstart, continues_of_not_mem hslash]
  rfl

/-- A profile without an identifier, which is the first of all profiles. -/
def leading (name : String) : List (String × String) :=
  [(keyOf "" "name", name), (keyOf "" "input", "audio"), (keyOf "" "output", "audio"),
    (keyOf "" "jobload", "1")]

theorem identifiers_eq_cons {properties : Std.TreeMap String String}
    (h : "" ∈ identifiers properties) : ∃ ids, identifiers properties = "" :: ids := by
  obtain ⟨before, ids, hids⟩ := List.append_of_mem h
  cases before with
  | nil => exact ⟨ids, hids⟩
  | cons id before =>
    have hordered : (identifiers properties).Pairwise fun a b => compare a b = .lt :=
      Std.TreeMap.ordered_keys
    rw [hids, List.cons_append, List.pairwise_cons] at hordered
    have hlt : id < "" := compare_lt_iff_lt.1 (hordered.1 "" (by simp))
    exact absurd (String.lt_iff_toList_lt.1 hlt) (List.not_lt_nil _)

section

variable {text name : String}
  (h : ∀ property ∈ leading name, (ofText text)[property.1]? = some property.2)
include h

theorem mem_identifiers_of_leading : "" ∈ identifiers (ofText text) := by
  rw [mem_identifiers_iff, Std.TreeMap.mem_iff_isSome_getElem?,
    h (keyOf "" "name", name) List.mem_cons_self]
  rfl

theorem exists_profileOf_of_leading :
    ∃ p, profileOf "" (attributesOf (ofText text) (identifiers (ofText text)) "") = .ok p ∧
      p.identifier = "" ∧ p.name = name := by
  have hmem := mem_identifiers_of_leading h
  simp only [leading, List.forall_mem_cons] at h
  obtain ⟨hname, hinput, houtput, hload, -⟩ := h
  let attributes := attributesOf (ofText text) (identifiers (ofText text)) ""
  have hattribute {key value : String} (hkey : '.' ∉ key.toList)
      (hvalue : (ofText text)[keyOf "" key]? = some value) : attributes[key]? = some value :=
    getElem?_attributesOf_of_not_mem hmem hkey hvalue
  have hinput : kindOf "" attributes "input" = .ok .audio := by
    rw [kindOf, hattribute (by decide) hinput]
    rfl
  have houtput : kindOf "" attributes "output" = .ok .audio := by
    rw [kindOf, hattribute (by decide) houtput]
    rfl
  have hloads : ∀ a ∈ attributes.toList, a.1 = "jobload" → (readFloat32? a.2).isSome = true := by
    rintro ⟨key, value⟩ ha rfl
    have hvalue := Std.TreeMap.mem_toList_iff_getElem?_eq_some.1 ha
    rw [hattribute (by decide) hload] at hvalue
    cases hvalue
    rw [readFloat32?, Option.isSome_map]
    decide
  obtain ⟨p, hfold⟩ := exists_foldlM_withAttribute hloads
  have hp : profileOf "" attributes = .ok p :=
    bind_eq_ok_iff.2 ⟨_, hinput, bind_eq_ok_iff.2 ⟨_, houtput, hfold⟩⟩
  obtain ⟨hidentifier, hcalled⟩ := called_profileOf hp
  refine ⟨p, hp, hidentifier, ?_⟩
  rw [hcalled, hattribute (by decide) hname]
  rfl

theorem exists_get_of_leading (r : ProfileRegistry) :
    ∃ p, (r.loadProperties text).1.get "" = .ok p ∧ p.name = name := by
  obtain ⟨p, hp, hidentifier, hname⟩ := exists_profileOf_of_leading h
  obtain ⟨ids, hids⟩ := identifiers_eq_cons (mem_identifiers_of_leading h)
  have hprofiles : ∃ more, profiles text = .ok p :: more := by
    rw [profiles, hids, List.map_cons, ← hids, hp]
    exact ⟨_, rfl⟩
  obtain ⟨more, hprofiles⟩ := hprofiles
  refine ⟨p, ?_, hname⟩
  rw [← hidentifier]
  exact ProfileRegistry.get_of_profiles_eq_cons hprofiles

end

theorem exists_linesOf (h : ∀ line ∈ lines, '\n' ∉ line) :
    ∃ text : String, Text.linesOf text.toList = lines := by
  let written := lines.map fun line => String.ofList (line ++ ['\r'])
  refine ⟨String.join (written.map (· ++ "\n")), ?_⟩
  rw [Text.linesOf_join, List.map_map]
  · refine (List.map_congr_left fun line _ => ?_).trans (List.map_id lines)
    simp [Text.dropReturn]
  · intro line hline
    obtain ⟨l, hl, rfl⟩ := List.mem_map.1 hline
    simpa using h l hl

/-- The two texts load the same, whatever was loaded before. -/
def LoadAlike (text text' : String) : Prop :=
  ∀ r : ProfileRegistry, r.loadProperties text' = r.loadProperties text

theorem LoadAlike.of_propertiesFrom_eq {text text' : String}
    (h : propertiesFrom [] (Text.linesOf text'.toList) =
      propertiesFrom [] (Text.linesOf text.toList)) : LoadAlike text text' := by
  intro r
  rw [ProfileRegistry.loadProperties, ProfileRegistry.loadProperties, profiles, profiles,
    ofText_eq, ofText_eq, h]

section Leading

variable {name : String}

theorem nodup_leading (name : String) : ((leading name).map Prod.fst).Nodup := by
  have hkeys : (["name", "input", "output", "jobload"].map (keyOf "")).Nodup := by decide
  exact hkeys

theorem getElem?_of_mem_leading {l : List (String × String)} {property : String × String}
    (h : property ∈ leading name) :
    (Std.TreeMap.ofList (l ++ leading name))[property.1]? = some property.2 := by
  have hlast : (Std.TreeMap.ofList (leading name))[property.1]? = some property.2 := by
    refine (getElem?_ofList_eq_some_iff fun key v w hv hw => ?_).2 h
    exact (Prod.mk.inj (List.inj_on_of_nodup_map (nodup_leading name) hv hw rfl)).2
  rw [getElem?_ofList_append, hlast]
  rfl

theorem not_mem_of_forall_eq {c : Char} (hc : c ≠ 'a') (hname : ∀ c ∈ name.toList, c = 'a') :
    c ∉ name.toList := mt (hname c) hc

theorem isKey_of_mem_leading (hname : ∀ c ∈ name.toList, c = 'a') :
    ∀ property ∈ leading name, IsKey property.1 ∧ IsValueText property.2.toList := by
  have hkey {key : String} (h : IsKeyText key.toList) : IsKey (keyOf "" key) :=
    IsKeyText.isKey_keyOf (by decide) h
  have hvalue : IsValueText name.toList := by
    refine ⟨not_mem_of_forall_eq (by decide) hname, fun c hc => ?_, fun c hc => ?_⟩
    · rw [hname c (List.mem_of_mem_head? hc)]
      rfl
    · rw [hname c (List.mem_of_getLast? hc)]
      rfl
  simp only [leading, List.forall_mem_cons]
  exact ⟨⟨hkey (by decide), hvalue⟩, ⟨hkey (by decide), by decide⟩, ⟨hkey (by decide), by decide⟩,
    ⟨hkey (by decide), by decide⟩, by simp⟩

theorem propertiesFrom_leading (hname : ∀ c ∈ name.toList, c = 'a') :
    propertiesFrom [] ((leading name).map lineOf) = leading name :=
  filterMap_keyValue?_entriesFrom (writtenOn_lineOf _) (isKey_of_mem_leading hname)

theorem not_mem_of_mem_leading (hname : ∀ c ∈ name.toList, c = 'a') :
    ∀ line ∈ (leading name).map lineOf, '\n' ∉ line := by
  have hkey : '\n' ∉ (keyOf "" "name").toList := by decide
  have hfeed : '\n' ∉ name.toList := not_mem_of_forall_eq (by decide) hname
  simp only [leading, List.map_cons, List.map_nil, List.forall_mem_cons]
  exact ⟨by simp [lineOf, hkey, hfeed], by decide, by decide, by decide, by simp⟩

/-- Behind something that is pending, the leading profile does not get its name. -/
theorem name_not_mem_of_pending (hname : ∀ c ∈ name.toList, c = 'a')
    (hhead : ∀ c ∈ pending.head?, Text.isBlank c = false) (hpending : pending ≠ []) :
    (keyOf "" "name", name) ∉ propertiesFrom pending ((leading name).map lineOf) := by
  have hproperties := isKey_of_mem_leading hname
  have hnodup := nodup_leading name
  rw [leading, List.forall_mem_cons] at hproperties
  rw [leading, List.map_cons, List.nodup_cons] at hnodup
  rw [leading, List.map_cons, propertiesFrom_lineOf hproperties.1 hpending,
    List.mem_append, Option.mem_toList, propertiesFrom,
    filterMap_keyValue?_entriesFrom (writtenOn_lineOf _) hproperties.2]
  rintro (hfirst | hlater)
  · rw [lineOf, List.append_assoc] at hfirst
    exact keyValue?_append_ne hproperties.1.1 (not_mem_of_forall_eq (by decide) hname) hhead
      hpending hfirst
  · exact hnodup.1 (List.mem_map_of_mem hlater)

theorem exists_name (properties : List (String × String)) :
    ∃ name : String, (∀ c ∈ name.toList, c = 'a') ∧ ∀ key, (key, name) ∉ properties := by
  obtain ⟨n, hn⟩ := Infinite.exists_notMem_finset
    (properties.map fun property => property.2.length).toFinset
  refine ⟨String.ofList (List.replicate n 'a'), fun c hc => ?_, fun key hkey => hn ?_⟩
  · rw [String.toList_ofList] at hc
    exact List.eq_of_mem_replicate hc
  · rw [List.mem_toFinset]
    exact List.mem_map.2 ⟨_, hkey, by simp⟩

end Leading

theorem propertiesFrom_of_goesOn {front : List (List Char)} (h : GoesOn (openAfter [] front) line)
    (rest : List (List Char)) :
    propertiesFrom [] (front ++ line :: rest) = propertiesFrom [] front ++
      propertiesFrom (openAfter [] front ++ (Text.trimStart line).dropLast) rest := by
  rw [propertiesFrom_append, propertiesFrom_cons, readLine_of_ne_nil h.1, if_pos h.2]
  rfl

theorem exists_propertiesFrom_of_blanks {front padded : List (List Char)}
    (hpadded : Padded [] front padded) (hblanks : ∀ c ∈ blanks, Text.isBlank c = true)
    (hne : blanks ≠ []) (h : GoesOn (openAfter [] front) line) (rest : List (List Char)) :
    ∃ before, propertiesFrom [] (padded ++ (line ++ blanks) :: rest) =
      before ++ propertiesFrom [] rest := by
  have hstart : Text.trimStart line ≠ [] := by
    intro hstart
    have hcontinues := h.2
    rw [hstart] at hcontinues
    cases hcontinues
  rw [propertiesFrom_append, hpadded.propertiesFrom_eq.2, propertiesFrom_cons,
    readLine_of_ne_nil h.1, Text.trimStart_append_eq_ite, if_neg hstart,
    continues_append_blanks hblanks hne, ← List.append_assoc]
  exact ⟨_, rfl⟩

/-- A blank behind the backslash of a continuation that goes on is read. -/
theorem exists_not_loadAlike {front padded : List (List Char)} (hpadded : Padded [] front padded)
    (hlines : ∀ l ∈ padded, '\n' ∉ l) (hline : '\n' ∉ line)
    (hblanks : ∀ c ∈ blanks, Text.isBlank c = true) (hfeed : '\n' ∉ blanks) (hne : blanks ≠ [])
    (h : GoesOn (openAfter [] front) line) :
    ∃ (rest : List (List Char)) (text text' : String),
      Text.linesOf text.toList = front ++ line :: rest ∧
        Text.linesOf text'.toList = padded ++ (line ++ blanks) :: rest ∧
        ¬ LoadAlike text text' := by
  -- what follows is the leading profile, with a name that nothing before it has as a value
  obtain ⟨name, hname, hfresh⟩ := exists_name (propertiesFrom [] front)
  let rest := (leading name).map lineOf
  have hrest : ∀ l ∈ rest, '\n' ∉ l := not_mem_of_mem_leading hname
  have hfirst : ∀ l ∈ front ++ line :: rest, '\n' ∉ l := by
    rw [List.forall_mem_append, List.forall_mem_cons]
    exact ⟨hpadded.not_mem hlines, hline, hrest⟩
  have hsecond : ∀ l ∈ padded ++ (line ++ blanks) :: rest, '\n' ∉ l := by
    rw [List.forall_mem_append, List.forall_mem_cons, List.mem_append, not_or]
    exact ⟨hlines, ⟨hline, hfeed⟩, hrest⟩
  obtain ⟨text, htext⟩ := exists_linesOf hfirst
  obtain ⟨text', htext'⟩ := exists_linesOf hsecond
  refine ⟨rest, text, text', htext, htext', fun halike => ?_⟩
  obtain ⟨before, hwith⟩ := exists_propertiesFrom_of_blanks hpadded hblanks hne h rest
  have hleading : ∀ property ∈ leading name, (ofText text')[property.1]? = some property.2 := by
    intro property hproperty
    rw [ofText_eq, htext', hwith, propertiesFrom_leading hname]
    exact getElem?_of_mem_leading hproperty
  obtain ⟨p, hp, rfl⟩ := exists_get_of_leading hleading {}
  rw [halike {}] at hp
  have hget := ProfileRegistry.name_of_get hp
  rw [ofText_eq, htext, propertiesFrom_of_goesOn h] at hget
  rcases List.mem_append.1 (mem_of_getElem?_ofList hget) with hmem | hmem
  · exact hfresh _ hmem
  · refine name_not_mem_of_pending hname ?_ ?_ hmem
    · rw [List.head?_append_of_ne_nil _ h.1]
      exact head?_openAfter (by simp)
    · simp [h.1]

/-- Blanks at the ends of lines change nothing that is loaded, unless one stands behind the
backslash of a continuation that goes on: then what follows can be loaded differently. Blank lines
at the end of a text change nothing either, unless an entry is open there: then they complete it,
and its value is the last one of its key. -/
theorem loadAlike_of_padded {front padded : List (List Char)} (hpadded : Padded [] front padded) :
    (∀ (text text' : String) (blankLines : List (List Char)),
      Text.linesOf text.toList = front → Text.linesOf text'.toList = padded ++ blankLines →
      (∀ line ∈ blankLines, ∀ c ∈ line, Text.isBlank c = true) →
        (blankLines = [] ∨ keyValue? (openAfter [] front) = none → LoadAlike text text') ∧
        ∀ key value, blankLines ≠ [] → keyValue? (openAfter [] front) = some (key, value) →
          ofText text' = (ofText text).insert key value) ∧
    ∀ line blanks : List Char,
      (∀ l ∈ padded, '\n' ∉ l) → '\n' ∉ line → '\n' ∉ blanks → blanks ≠ [] →
      (∀ c ∈ blanks, Text.isBlank c = true) →
        ((∀ (rest : List (List Char)) (text text' : String),
          Text.linesOf text.toList = front ++ line :: rest →
          Text.linesOf text'.toList = padded ++ (line ++ blanks) :: rest → LoadAlike text text') ↔
        ¬ GoesOn (openAfter [] front) line) := by
  constructor
  · rintro text text' blankLines rfl htext' hblank
    obtain ⟨hsame, hopen⟩ := hpadded.propertiesFrom_eq
    have hproperties : propertiesFrom [] (Text.linesOf text'.toList) =
        propertiesFrom [] (Text.linesOf text.toList) ++
          propertiesFrom (openAfter [] (Text.linesOf text.toList)) blankLines := by
      rw [htext', propertiesFrom_append, hsame, hopen]
    constructor
    · intro hcomplete
      refine .of_propertiesFrom_eq (hproperties.trans ?_)
      by_cases hne : blankLines = []
      · rw [hne]
        exact List.append_nil _
      · rw [propertiesFrom_blankLines hblank hne, hcomplete.resolve_left hne]
        exact List.append_nil _
    · intro key value hne hentry
      rw [propertiesFrom_blankLines hblank hne, hentry] at hproperties
      rw [ofText_eq, ofText_eq, hproperties, Std.TreeMap.ofList_eq_insertMany_empty,
        Std.TreeMap.insertMany_append, ← Std.TreeMap.ofList_eq_insertMany_empty]
      exact Std.TreeMap.insertMany_list_singleton
  · intro line blanks hlines hline hfeed hne hblanks
    constructor
    · intro halike hgoes
      obtain ⟨rest, text, text', htext, htext', hnot⟩ :=
        exists_not_loadAlike hpadded hlines hline hblanks hfeed hne hgoes
      exact hnot (halike rest text text' htext htext')
    · intro hlast rest text text' htext htext'
      have hall : Padded [] (front ++ line :: rest) (padded ++ (line ++ blanks) :: rest) :=
        hpadded.append (.cons hblanks (fun hgoes => absurd hgoes hlast) (.refl _ rest))
      refine .of_propertiesFrom_eq ?_
      rw [htext, htext', hall.propertiesFrom_eq.1]

/-- Blanks behind both lines of an entry, and behind such lines a continuation that goes on. -/
theorem loadAlike_of_padded_two :
    let front := ["profile.a.name = one \\".toList, " two".toList, "a=\\".toList]
    let padded := ["profile.a.name = one \\".toList ++ " \t".toList, " two".toList ++ " ".toList,
      "a=\\".toList ++ []]
    Padded [] front padded ∧
      LoadAlike "profile.a.name = one \\\n two\na=\\"
        "profile.a.name = one \\ \t\n two \na=\\\n" ∧
      ¬ ∀ (rest : List (List Char)) (text text' : String),
        Text.linesOf text.toList = front ++ "b\\".toList :: rest →
        Text.linesOf text'.toList = padded ++ ("b\\".toList ++ [' ']) :: rest →
        LoadAlike text text' := by
  intro front padded
  have hpadded : Padded [] front padded := by
    refine .cons (List.all_eq_true.1 rfl) ?_ (.cons (List.all_eq_true.1 rfl) ?_
      (.cons (List.all_eq_true.1 rfl) ?_ (.nil _)))
    all_goals decide
  have hspace : ∀ c ∈ [' '], Text.isBlank c = true := List.all_eq_true.1 rfl
  refine ⟨hpadded, ?_, fun halike => ?_⟩
  · exact ((loadAlike_of_padded hpadded).1 _ _ [] (by decide) (by decide)
      (List.forall_mem_nil _)).1 (Or.inl rfl)
  · exact ((loadAlike_of_padded hpadded).2 _ _ (by decide) (by decide) (by decide) (by decide)
      hspace).1 halike (by decide)

/-- A blank behind the backslash of a continuation, and a blank line behind an open entry. -/
theorem not_loadAlike_of_blank :
    let start := "profile.a.name=a\nprofile.a.input=audio\nprofile.a.output="
    ¬ LoadAlike (start ++ "\\\nau\\\ndio") (start ++ "\\\nau\\ \ndio") ∧
      ¬ LoadAlike (start ++ "audio\\\n") (start ++ "audio\\\n\n") := by
  intro start
  have hcount {text text' : String} (h : LoadAlike text text') :
      (({} : ProfileRegistry).loadProperties text').2.toOption =
        (({} : ProfileRegistry).loadProperties text).2.toOption := by
    rw [h {}]
  exact ⟨fun halike => absurd (hcount halike) (by decide +kernel),
    fun halike => absurd (hcount halike) (by decide +kernel)⟩

end Properties

end Montage
