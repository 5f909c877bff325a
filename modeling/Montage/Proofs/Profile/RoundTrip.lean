import Mathlib.Data.List.Nodup
import Montage.Profile.Registry
import Montage.Proofs.Outcome
import Montage.Proofs.Profile.Details
import Montage.Proofs.Profile.Layout
import Montage.Proofs.Profile.Owner

/-!
# Profiles that are written as properties are read back

Each attribute of a profile is a property. The lines may come in any order
(`ProfileRegistry.loadProperties_of_written`): the names tell the identifiers, and each key
belongs to the profile that it was written for, even where an identifier begins with another
one and a dot.
-/

namespace Montage

namespace Properties

/-- A profile as properties write it; its kinds may be spelled in any way. -/
structure Written where
  profile : Profile
  input : String
  output : String

namespace Written

def id (w : Written) : String := w.profile.identifier

def attributes (w : Written) : List (String × String) :=
  [("name", w.profile.name), ("input", w.input), ("output", w.output)] ++
    w.profile.details.map fun (d, value) => (d.key, value)

def properties (w : Written) : List (String × String) :=
  w.attributes.map fun (key, value) => (keyOf w.id key, value)

/-- The properties say all of the profile, and each key and value can stand on a line. -/
structure IsPlain (w : Written) : Prop where
  input : MediaKind.ofText w.input = .ok w.profile.input
  output : MediaKind.ofText w.output = .ok w.profile.output
  /-- No attribute says the load. -/
  jobLoad : w.profile.jobLoad = 1
  id : IsKeyText w.id.toList
  key : ∀ a ∈ w.attributes, IsKeyText a.1.toList
  value : ∀ a ∈ w.attributes, IsValueText a.2.toList
  /-- No key looks like the name of a longer identifier. -/
  name : ∀ a ∈ w.attributes, ¬ ".name".toList <:+ a.1.toList
  extension : ∀ e ∈ w.profile.extensions.toList, ¬ Profile.Detail.IsReserved e.1

variable {w : Written}

theorem mem_attributes_iff {key value : String} :
    (key, value) ∈ w.attributes ↔
      (key, value) ∈ [("name", w.profile.name), ("input", w.input), ("output", w.output)] ∨
        ∃ d, d.key = key ∧ w.profile.detail? d = some value := by
  rw [attributes, List.mem_append, List.mem_map]
  refine or_congr_right ⟨?_, ?_⟩
  · rintro ⟨⟨d, v⟩, hmem, heq⟩
    obtain ⟨rfl, rfl⟩ := Prod.mk.inj heq
    exact ⟨d, rfl, Profile.mem_details_iff.1 hmem⟩
  · rintro ⟨d, rfl, hd⟩
    exact ⟨(d, value), Profile.mem_details_iff.2 hd, rfl⟩

theorem IsPlain.ofKey?_key (h : w.IsPlain) {d : Profile.Detail} {value : String}
    (hd : w.profile.detail? d = some value) : Profile.Detail.ofKey? d.key = some d := by
  cases d with
  | suffix => rfl
  | taggedSuffix tag => exact Profile.Detail.ofKey?_taggedSuffix tag
  | mimeType => rfl
  | extension key =>
    have hmem : (key, value) ∈ w.profile.extensions.toList :=
      Std.TreeMap.mem_toList_iff_getElem?_eq_some.2 hd
    exact Profile.Detail.ofKey?_extension (h.extension _ hmem)

theorem IsPlain.mem_attributes_iff_of_ofKey? (h : w.IsPlain) {key value : String}
    {d : Profile.Detail} (hd : Profile.Detail.ofKey? key = some d) :
    (key, value) ∈ w.attributes ↔ w.profile.detail? d = some value := by
  rw [mem_attributes_iff]
  constructor
  · rintro (hfixed | ⟨d', rfl, hvalue⟩)
    · simp only [List.mem_cons, Prod.mk.injEq, List.not_mem_nil, or_false] at hfixed
      rcases hfixed with ⟨rfl, -⟩ | ⟨rfl, -⟩ | ⟨rfl, -⟩ <;> cases hd
    · rw [h.ofKey?_key hvalue, Option.some_inj] at hd
      rw [← hd, hvalue]
  · intro hvalue
    exact .inr ⟨d, Profile.Detail.key_of_ofKey? hd, hvalue⟩

theorem IsPlain.mem_attributes_iff_of_ofKey?_eq_none (h : w.IsPlain) {key value : String}
    (hkey : Profile.Detail.ofKey? key = none) :
    (key, value) ∈ w.attributes ↔
      (key, value) ∈ [("name", w.profile.name), ("input", w.input), ("output", w.output)] := by
  rw [mem_attributes_iff, or_iff_left]
  rintro ⟨d, rfl, hvalue⟩
  rw [h.ofKey?_key hvalue] at hkey
  cases hkey

theorem IsPlain.eq_of_mem_attributes (h : w.IsPlain) {key v v' : String}
    (hv : (key, v) ∈ w.attributes) (hv' : (key, v') ∈ w.attributes) : v = v' := by
  cases hkey : Profile.Detail.ofKey? key with
  | none =>
    rw [h.mem_attributes_iff_of_ofKey?_eq_none hkey] at hv hv'
    simp only [List.mem_cons, Prod.mk.injEq, List.not_mem_nil, or_false] at hv hv'
    rcases hv with ⟨rfl, rfl⟩ | ⟨rfl, rfl⟩ | ⟨rfl, rfl⟩ <;> simpa [eq_comm] using hv'
  | some d =>
    rw [h.mem_attributes_iff_of_ofKey? hkey] at hv hv'
    rw [hv, Option.some_inj] at hv'
    exact hv'

theorem IsPlain.ne_jobload (h : w.IsPlain) {a : String × String} (ha : a ∈ w.attributes) :
    a.1 ≠ "jobload" := by
  intro hkey
  obtain ⟨key, value⟩ := a
  subst hkey
  rw [h.mem_attributes_iff_of_ofKey?_eq_none rfl] at ha
  simp at ha

/-- The attributes tell each detail, in whatever order they come. -/
theorem IsPlain.detail?_foldl_told (h : w.IsPlain) {attributes : List (String × String)}
    (hmem : ∀ a, a ∈ attributes ↔ a ∈ w.attributes) {bare : Profile} {d : Profile.Detail}
    (hbare : bare.detail? d = none) :
    (attributes.foldl (fun p a => p.told a.1 a.2) bare).detail? d = w.profile.detail? d := by
  have hfound (a : String × String) (v : String) :
      (if Profile.Detail.ofKey? a.1 = some d then some a.2 else none) = some v ↔
        Profile.Detail.ofKey? a.1 = some d ∧ a.2 = v := by
    rw [Option.ite_none_right_eq_some, Option.some_inj]
  ext value
  rw [Profile.detail?_foldl_told, hbare, Option.or_none, findSomeRev?_eq_some_iff]
  · simp only [hfound, hmem]
    constructor
    · rintro ⟨⟨key, v⟩, ha, hd, rfl⟩
      exact (h.mem_attributes_iff_of_ofKey? hd).1 ha
    · intro hvalue
      have hd := h.ofKey?_key hvalue
      exact ⟨(d.key, value), (h.mem_attributes_iff_of_ofKey? hd).2 hvalue, hd, rfl⟩
  · rintro ⟨key, v⟩ ha ⟨key', v'⟩ hb w₁ w₂ hv hv'
    obtain ⟨hd, rfl⟩ := (hfound _ _).1 hv
    obtain ⟨hd', rfl⟩ := (hfound _ _).1 hv'
    rw [hmem, h.mem_attributes_iff_of_ofKey? hd] at ha
    rw [hmem, h.mem_attributes_iff_of_ofKey? hd'] at hb
    exact Option.some_inj.1 (ha.symm.trans hb)

theorem IsPlain.exists_profileOf (h : w.IsPlain) {attributes : Std.TreeMap String String}
    (hattributes : ∀ key value, attributes[key]? = some value ↔ (key, value) ∈ w.attributes) :
    ∃ p, profileOf w.id attributes = .ok p ∧ p.SameAs w.profile := by
  have hname : attributes["name"]? = some w.profile.name :=
    (hattributes _ _).2 (mem_attributes_iff.2 (.inl (by simp)))
  have hinput : attributes["input"]? = some w.input :=
    (hattributes _ _).2 (mem_attributes_iff.2 (.inl (by simp)))
  have houtput : attributes["output"]? = some w.output :=
    (hattributes _ _).2 (mem_attributes_iff.2 (.inl (by simp)))
  have hmem (a : String × String) : a ∈ attributes.toList ↔ a ∈ w.attributes := by
    rw [← hattributes a.1 a.2, Std.TreeMap.mem_toList_iff_getElem?_eq_some]
  let bare : Profile :=
    { identifier := w.id, name := w.profile.name, input := w.profile.input,
      output := w.profile.output }
  -- The attributes come in the order of their keys, not in the one in which they were written.
  refine ⟨attributes.toList.foldl (fun p a => p.told a.1 a.2) bare, ?_, .of_details ?_ fun d => ?_⟩
  · unfold profileOf kindOf
    rw [hinput, houtput, hname]
    simp only [h.input, h.output]
    exact Profile.foldlM_withAttribute fun a ha => h.ne_jobload ((hmem a).1 ha)
  · rw [Profile.base_foldl_told, Profile.base, Profile.base, h.jobLoad]
    rfl
  · have hbare : bare.detail? d = none := by cases d <;> rfl
    exact h.detail?_foldl_told hmem hbare

end Written

/-- Different profiles have different identifiers. Where one identifier begins with another
one and a dot, the rest of it does not begin a key of the shorter one. -/
structure AreApart (ws : List Written) : Prop where
  nodup : (ws.map Written.id).Nodup
  apart : ∀ w ∈ ws, ∀ r, w.id ++ "." ++ r ∈ ws.map Written.id →
    ∀ a ∈ w.attributes, ¬ (r ++ ".").toList <+: a.1.toList

section

variable {ws : List Written}

theorem AreApart.eq_of_id (h : AreApart ws) {w w' : Written} (hw : w ∈ ws) (hw' : w' ∈ ws)
    (hid : w.id = w'.id) : w = w' :=
  List.inj_on_of_nodup_map h.nodup hw hw' hid

/-- A key belongs to the profile that it was written for. -/
theorem AreApart.owner?_keyOf (h : AreApart ws) {ids : List String}
    (hids : ∀ id, id ∈ ids ↔ id ∈ ws.map Written.id) {w : Written} (hw : w ∈ ws)
    {a : String × String} (ha : a ∈ w.attributes) :
    owner? ids (keyOf w.id a.1) = some (w.id, a.1) := by
  rw [owner?_eq_some_iff]
  refine ⟨rfl, (hids _).2 (List.mem_map_of_mem hw), fun r rest hr hmem => ?_⟩
  refine h.apart w hw r ((hids _).1 hmem) a ha ⟨rest.toList, ?_⟩
  rw [hr]
  simp

theorem AreApart.eq_of_keyOf (h : AreApart ws) {w w' : Written} (hw : w ∈ ws) (hw' : w' ∈ ws)
    {a a' : String × String} (ha : a ∈ w.attributes) (ha' : a' ∈ w'.attributes)
    (hkey : keyOf w.id a.1 = keyOf w'.id a'.1) : w = w' ∧ a.1 = a'.1 := by
  have howner := h.owner?_keyOf (fun _ => Iff.rfl) hw ha
  rw [hkey, h.owner?_keyOf (fun _ => Iff.rfl) hw' ha', Option.some_inj, Prod.mk.injEq] at howner
  exact ⟨h.eq_of_id hw hw' howner.1.symm, howner.2.symm⟩

theorem mem_flatMap_properties {full value : String} :
    (full, value) ∈ ws.flatMap Written.properties ↔
      ∃ w ∈ ws, ∃ key, (key, value) ∈ w.attributes ∧ keyOf w.id key = full := by
  simp [Written.properties]

theorem IsKeyText.isKey_keyOf {id key : String} (hid : IsKeyText id.toList)
    (hkey : IsKeyText key.toList) : IsKey (keyOf id key) := by
  have hlist : (keyOf id key).toList =
      keyStart.toList ++ (id.toList ++ ".".toList ++ key.toList) := by
    simp [keyOf]
  have hstart : IsKeyText keyStart.toList := by decide
  have hdot : IsKeyText ".".toList := by decide
  rw [IsKey, hlist]
  exact ⟨hstart.append ((hid.append hdot).append hkey), rfl⟩

variable {entries : List (String × String)} {text : String}
  (hplain : ∀ w ∈ ws, w.IsPlain) (hapart : AreApart ws)
  (hentries : entries.Perm (ws.flatMap Written.properties))
  (htext : WrittenOn entries (Text.linesOf text.toList))

include hplain hapart hentries htext

theorem getElem?_ofText {full value : String} :
    (ofText text)[full]? = some value ↔
      ∃ w ∈ ws, ∃ key, (key, value) ∈ w.attributes ∧ keyOf w.id key = full := by
  have hread : ∀ e ∈ entries, IsKey e.1 ∧ IsValueText e.2.toList := by
    rintro ⟨full, value⟩ he
    obtain ⟨w, hw, key, ha, rfl⟩ := mem_flatMap_properties.1 (hentries.mem_iff.1 he)
    have hw := hplain w hw
    exact ⟨hw.id.isKey_keyOf (hw.key (key, value) ha), hw.value (key, value) ha⟩
  rw [ofText, filterMap_keyValue?_entriesFrom htext hread, getElem?_ofList_eq_some_iff,
    hentries.mem_iff, mem_flatMap_properties]
  intro full v v' hv hv'
  obtain ⟨w, hw, key, ha, rfl⟩ := mem_flatMap_properties.1 (hentries.mem_iff.1 hv)
  obtain ⟨w', hw', key', ha', hkey⟩ := mem_flatMap_properties.1 (hentries.mem_iff.1 hv')
  obtain ⟨rfl, hsame⟩ := hapart.eq_of_keyOf hw' hw ha' ha hkey
  dsimp only at hsame
  subst hsame
  exact (hplain _ hw).eq_of_mem_attributes ha ha'

theorem perm_identifiers :
    (identifiers (ofText text)).Perm (ws.map Written.id) := by
  rw [List.perm_ext_iff_of_nodup (nodup_identifiers _) hapart.nodup]
  intro id
  rw [mem_identifiers_iff, Std.TreeMap.mem_iff_isSome_getElem?, Option.isSome_iff_exists,
    List.mem_map]
  simp only [getElem?_ofText hplain hapart hentries htext]
  constructor
  · rintro ⟨value, w, hw, key, ha, hkey⟩
    exact ⟨w, hw, eq_of_keyOf_eq_name hkey ((hplain w hw).name (key, value) ha)⟩
  · rintro ⟨w, hw, rfl⟩
    exact ⟨w.profile.name, w, hw, "name", Written.mem_attributes_iff.2 (.inl (by simp)), rfl⟩

theorem getElem?_attributesOf {w : Written} (hw : w ∈ ws) {key value : String} :
    (attributesOf (ofText text) (identifiers (ofText text)) w.id)[key]? = some value ↔
      (key, value) ∈ w.attributes := by
  have hids (id : String) : id ∈ identifiers (ofText text) ↔ id ∈ ws.map Written.id :=
    (perm_identifiers hplain hapart hentries htext).mem_iff
  rw [getElem?_attributesOf_iff, getElem?_ofText hplain hapart hentries htext]
  constructor
  · rintro ⟨⟨w', hw', key', ha, hkey⟩, howner⟩
    rw [← hkey, hapart.owner?_keyOf hids hw' ha, Option.some_inj, Prod.mk.injEq] at howner
    obtain ⟨hid, rfl⟩ := howner
    rwa [← hapart.eq_of_id hw' hw hid]
  · intro ha
    have howner := hapart.owner?_keyOf hids hw ha
    exact ⟨⟨w, hw, key, ha, rfl⟩, howner⟩

end

end Properties

namespace ProfileRegistry

theorem get_insert (r : ProfileRegistry) (p : Profile) (id : String) :
    (r.insert p).get id = if p.identifier = id then .ok p else r.get id := by
  rw [get, insert, Std.TreeMap.getElem?_insert]
  simp only [Std.LawfulEqCmp.compare_eq_iff_eq]
  by_cases hid : p.identifier = id
  · rw [if_pos hid, if_pos hid]
  · rw [if_neg hid, if_neg hid, get]

theorem addAll_map (f : String → Except Error Profile) {ids : List String} (hids : ids.Nodup)
    (hf : ∀ id ∈ ids, ∃ p, f id = .ok p ∧ p.identifier = id) (r : ProfileRegistry) (count : Nat) :
    ∃ loaded : ProfileRegistry, r.addAll count (ids.map f) = (loaded, .ok (count + ids.length)) ∧
      ∀ id, loaded.get id = if id ∈ ids then f id else r.get id := by
  induction ids generalizing r count with
  | nil => exact ⟨r, rfl, fun _ => rfl⟩
  | cons id ids ih =>
    rw [List.nodup_cons] at hids
    rw [List.forall_mem_cons] at hf
    obtain ⟨⟨p, hp, hid⟩, hrest⟩ := hf
    obtain ⟨loaded, hloaded, hget⟩ := ih hids.2 hrest (r.insert p) (count + 1)
    refine ⟨loaded, ?_, fun id' => ?_⟩
    · rw [List.map_cons, hp, addAll, hloaded, List.length_cons, Nat.add_right_comm, Nat.add_assoc]
    · rw [hget, get_insert, hid]
      by_cases heq : id = id'
      · subst heq
        rw [if_neg hids.1, if_pos rfl, if_pos List.mem_cons_self, hp]
      · rw [if_neg heq]
        simp only [List.mem_cons, Ne.symm heq, false_or]

open Properties in
/-- Profiles that are written as properties, in whatever order and with whatever remarks and
breaks, are loaded as they were, and nothing else changes. -/
theorem loadProperties_of_written {ws : List Written} (hplain : ∀ w ∈ ws, w.IsPlain)
    (hapart : AreApart ws) {entries : List (String × String)}
    (hentries : entries.Perm (ws.flatMap Written.properties)) {text : String}
    (htext : WrittenOn entries (Text.linesOf text.toList)) (r : ProfileRegistry) :
    ∃ loaded : ProfileRegistry, r.loadProperties text = (loaded, .ok ws.length) ∧
      (∀ w ∈ ws, ∃ p, loaded.get w.id = .ok p ∧ p.SameAs w.profile) ∧
      ∀ id, id ∉ ws.map Written.id → loaded.get id = r.get id := by
  have hperm := perm_identifiers hplain hapart hentries htext
  have hread (w : Written) (hw : w ∈ ws) :
      ∃ p, profileOf w.id (attributesOf (ofText text) (identifiers (ofText text)) w.id) = .ok p ∧
        p.SameAs w.profile :=
    (hplain w hw).exists_profileOf fun _ _ => getElem?_attributesOf hplain hapart hentries htext hw
  obtain ⟨loaded, hloaded, hget⟩ := addAll_map
    (fun id => profileOf id (attributesOf (ofText text) (identifiers (ofText text)) id))
    (nodup_identifiers (ofText text)) (fun id hid => by
      obtain ⟨w, hw, rfl⟩ := List.mem_map.1 (hperm.mem_iff.1 hid)
      obtain ⟨p, hp, hsame⟩ := hread w hw
      exact ⟨p, hp, hsame.identifier⟩) r 0
  refine ⟨loaded, ?_, fun w hw => ?_, fun id hid => ?_⟩
  · rw [loadProperties, Properties.profiles, hloaded, Nat.zero_add, hperm.length_eq,
      List.length_map]
  · rw [hget, if_pos (hperm.mem_iff.2 (List.mem_map_of_mem hw))]
    exact hread w hw
  · rw [hget, if_neg fun hmem => hid (hperm.mem_iff.1 hmem)]

open Properties in
/-- Two profiles whose identifiers, keys and lines are mixed up as far as they may be. -/
theorem loadProperties_of_written_two :
    let short : Written := ⟨
      { identifier := "h264", name := "shorter id", input := .audioVisual, output := .visual
        extensions := Std.TreeMap.ofList [("http", "= no")] }, "audiovisual", "Visual"⟩
    let long : Written := ⟨
      { identifier := "h264.http", name := "low", input := .visual, output := .visual
        suffix := some "", taggedSuffixes := Std.TreeMap.ofList [("a.b", "-a.mp4")]
        mimeType := some "video/mp4"
        extensions := Std.TreeMap.ofList [("ffmpeg.command", "-c:v x264 -crf 28low.mp4")] },
      "visual", "visual"⟩
    let lines := ["# Two profiles\\", "profile.h264.http.name = low",
      "profile.h264.name = shorter id", "profile.h264.http = = no", " \t",
      "profile.h264.http.ffmpeg.command = -c:v x264 \\", "    -crf 28\\", "\\", " low.mp4",
      " ! mixed up", "profile.h264.output = Visual", "profile.h264.http.suffix = ",
      "profile.h264.http.suffix.a.b = -a.mp4\r", "profile.h264.http.output = visual",
      "profile.h264.input = audiovisual", "profile.h264.http.input = visual",
      "profile.h264.http.mimetype = video/mp4"]
    let text := String.join (lines.map (· ++ "\n"))
    (∀ w ∈ [short, long], w.IsPlain) ∧ AreApart [short, long] ∧
      (∃ entries : List (String × String), entries.Perm ([short, long].flatMap Written.properties) ∧
        WrittenOn entries (Text.linesOf text.toList)) ∧
      ∃ loaded : ProfileRegistry, ({} : ProfileRegistry).loadProperties text = (loaded, .ok 2) ∧
        (∀ w ∈ [short, long], ∃ p, loaded.get w.id = .ok p ∧ p.SameAs w.profile) ∧
        ∀ id, id ∉ ["h264", "h264.http"] → loaded.get id = ({} : ProfileRegistry).get id := by
  intro short long lines text
  have hshort : short.IsPlain := by
    exact ⟨mem_toOption_iff.1 (by decide +kernel), mem_toOption_iff.1 (by decide +kernel), rfl,
      by decide +kernel, by decide +kernel, by decide +kernel, by decide +kernel,
      by decide +kernel⟩
  have hlong : long.IsPlain := by
    exact ⟨mem_toOption_iff.1 (by decide +kernel), mem_toOption_iff.1 (by decide +kernel), rfl,
      by decide +kernel, by decide +kernel, by decide +kernel, by decide +kernel,
      by decide +kernel⟩
  have hapart : AreApart [short, long] := by
    have happart : ∀ w ∈ [short, long], ∀ w' ∈ [short, long],
        ∀ r ∈ Text.dropStart? (w.id ++ ".") w'.id, ∀ a ∈ w.attributes,
          ¬ (r ++ ".").toList <+: a.1.toList := by decide +kernel
    refine ⟨by decide +kernel, fun w hw r hr => ?_⟩
    obtain ⟨w', hw', hid⟩ := List.mem_map.1 hr
    exact happart w hw w' hw' r (Text.dropStart?_eq_some_iff.2 hid)
  have hplain : ∀ w ∈ [short, long], w.IsPlain := by
    rw [List.forall_mem_cons, List.forall_mem_singleton]
    exact ⟨hshort, hlong⟩
  let continued (indent part : String) (hindent : indent.toList.all Text.isBlank = true)
      (hpart : ∀ c ∈ part.toList.head?, Text.isBlank c = false) : Continuation :=
    ⟨indent.toList, part.toList, List.all_eq_true.1 hindent, hpart⟩
  let entries := [("profile.h264.http.name", "low"), ("profile.h264.name", "shorter id"),
    ("profile.h264.http", "= no"),
    ("profile.h264.http.ffmpeg.command", "-c:v x264 -crf 28low.mp4"),
    ("profile.h264.output", "Visual"), ("profile.h264.http.suffix", ""),
    ("profile.h264.http.suffix.a.b", "-a.mp4"), ("profile.h264.http.output", "visual"),
    ("profile.h264.input", "audiovisual"), ("profile.h264.http.input", "visual"),
    ("profile.h264.http.mimetype", "video/mp4")]
  have hentries : entries.Perm ([short, long].flatMap Written.properties) := by decide +kernel
  have hlines : Text.linesOf text.toList =
      "# Two profiles\\".toList ::
      (brokenLines ("profile.h264.http.name".toList ++ " = ".toList ++ "low".toList) [] ++
      (brokenLines ("profile.h264.name".toList ++ " = ".toList ++ "shorter id".toList) [] ++
      (brokenLines ("profile.h264.http".toList ++ " = ".toList ++ "= no".toList) [] ++
      " \t".toList ::
      (brokenLines ("profile.h264.http.ffmpeg.command".toList ++ " = ".toList ++ "-c:v x264 ".toList)
        [continued "    " "-crf 28" rfl (by rintro c ⟨⟩; rfl), continued "" "" rfl (by simp),
          continued " " "low.mp4" rfl (by rintro c ⟨⟩; rfl)] ++
      " ! mixed up".toList ::
      (brokenLines ("profile.h264.output".toList ++ " = ".toList ++ "Visual".toList) [] ++
      (brokenLines ("profile.h264.http.suffix".toList ++ " = ".toList ++ "".toList) [] ++
      (brokenLines ("profile.h264.http.suffix.a.b".toList ++ " = ".toList ++ "-a.mp4".toList) [] ++
      (brokenLines ("profile.h264.http.output".toList ++ " = ".toList ++ "visual".toList) [] ++
      (brokenLines ("profile.h264.input".toList ++ " = ".toList ++ "audiovisual".toList) [] ++
      (brokenLines ("profile.h264.http.input".toList ++ " = ".toList ++ "visual".toList) [] ++
      (brokenLines ("profile.h264.http.mimetype".toList ++ " = ".toList ++ "video/mp4".toList) [] ++
      []))))))))))) := by
    rw [Text.linesOf_join (by decide +kernel)]
    decide +kernel
  have htext : WrittenOn entries (Text.linesOf text.toList) := by
    rw [hlines]
    have hcomment : IsRemark "# Two profiles\\".toList :=
      ⟨[], _, rfl, by simp, by rintro c ⟨⟩; exact .inl rfl⟩
    have hblank : IsRemark " \t".toList :=
      ⟨" \t".toList, [], rfl, List.all_eq_true.1 rfl, by simp⟩
    have hindented : IsRemark " ! mixed up".toList :=
      ⟨" ".toList, "! mixed up".toList, rfl, List.all_eq_true.1 rfl,
        by rintro c ⟨⟩; exact .inr rfl⟩
    exact .remark hcomment (.line (.line (.line (.remark hblank (.property (by decide +kernel)
      (.remark hindented (.line (.line (.line (.line (.line (.line (.line .done)))))))))))))
  exact ⟨hplain, hapart, ⟨entries, hentries, htext⟩,
    loadProperties_of_written hplain hapart hentries htext {}⟩

end ProfileRegistry

end Montage
