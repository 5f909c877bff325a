import Montage.Proofs.Profile.RoundTrip

/-!
# What is left of a load that fails

A load of JSON reads all profiles before it adds the first, and so a failure leaves the
registry as it was. A load of properties adds each profile as soon as it is read. If it
fails then the profiles in front of the faulty one were added, in the order of their
identifiers, and nothing has changed exactly if the registry held them already
(`ProfileRegistry.of_load_eq_error`).
-/

namespace Montage

namespace Properties

variable {p q : Profile} {id : String} {attributes : Std.TreeMap String String}

theorem called_withAttribute {key value : String} (h : withAttribute p key value = .ok q) :
    q.identifier = p.identifier ∧ q.name = p.name := by
  by_cases hload : key = "jobload"
  · subst hload
    rw [withAttribute] at h
    split at h
    · cases h
      exact ⟨rfl, rfl⟩
    · cases h
  · rw [Profile.withAttribute_eq p hload] at h
    cases h
    rw [Profile.told]
    split
    · have hbase := Profile.base_withDetail p value
      exact ⟨congrArg (·.1) (hbase _), congrArg (·.2.1) (hbase _)⟩
    · exact ⟨rfl, rfl⟩

theorem called_foldlM {l : List (String × String)}
    (h : l.foldlM (fun p (key, value) => withAttribute p key value) p = .ok q) :
    q.identifier = p.identifier ∧ q.name = p.name := by
  induction l generalizing p with
  | nil =>
    cases h
    exact ⟨rfl, rfl⟩
  | cons a l ih =>
    obtain ⟨p', hp', h⟩ := bind_eq_ok_iff.1 h
    obtain ⟨hid, hname⟩ := called_withAttribute hp'
    exact ⟨(ih h).1.trans hid, (ih h).2.trans hname⟩

theorem called_profileOf (h : profileOf id attributes = .ok p) :
    p.identifier = id ∧ p.name = attributes["name"]?.getD id := by
  obtain ⟨input, _, h⟩ := bind_eq_ok_iff.1 h
  obtain ⟨output, _, h⟩ := bind_eq_ok_iff.1 h
  exact called_foldlM h

theorem exists_foldlM_withAttribute {l : List (String × String)}
    (h : ∀ a ∈ l, a.1 = "jobload" → (readFloat32? a.2).isSome = true) :
    ∃ q, l.foldlM (fun p (key, value) => withAttribute p key value) p = .ok q := by
  induction l generalizing p with
  | nil => exact ⟨p, rfl⟩
  | cons a l ih =>
    rw [List.forall_mem_cons] at h
    obtain ⟨key, value⟩ := a
    obtain ⟨q, hq⟩ : ∃ q, withAttribute p key value = .ok q := by
      by_cases hload : key = "jobload"
      · subst hload
        obtain ⟨load, hvalue⟩ := Option.isSome_iff_exists.1 (h.1 rfl)
        rw [withAttribute, hvalue]
        exact ⟨_, rfl⟩
      · exact ⟨_, Profile.withAttribute_eq p hload value⟩
    simp only [List.foldlM_cons]
    rw [hq]
    exact ih h.2

theorem nodup_of_profiles_eq {text : String} {before : List Profile}
    {rest : List (Except Error Profile)} (h : profiles text = before.map .ok ++ rest) :
    (before.map Profile.identifier).Nodup := by
  obtain ⟨ids, others, hids, hbefore, _⟩ := List.map_eq_append_iff.1 h
  have hsublist : ids.Sublist (identifiers (ofText text)) := by
    rw [hids]
    exact List.sublist_append_left ids others
  have hsame : before.map Profile.identifier = ids := by
    clear h hids hsublist
    induction ids generalizing before with
    | nil =>
      rw [List.map_eq_nil_iff.1 hbefore.symm, List.map_nil]
    | cons id ids ih =>
      obtain ⟨p, before, rfl, hp, hrest⟩ := List.map_eq_cons_iff.1 hbefore.symm
      rw [List.map_cons, ih hrest.symm, (called_profileOf hp.symm).1]
  rw [hsame]
  exact (nodup_identifiers _).sublist hsublist

end Properties

namespace ProfileRegistry

variable {r loaded : ProfileRegistry} {text : String} {e : Error}

structure SameAs (r r' : ProfileRegistry) : Prop where
  ids : r.ids = r'.ids
  get : ∀ id, r.get id = r'.get id

theorem sameAs_iff {r' : ProfileRegistry} : r.SameAs r' ↔ ∀ id, r.get id = r'.get id := by
  refine ⟨SameAs.get, fun hget => ⟨?_, hget⟩⟩
  have hlookup (id : String) : r.profiles[id]? = r'.profiles[id]? := by
    have h := hget id
    unfold get at h
    split at h <;> split at h <;> simp_all
  exact (Std.TreeMap.Equiv.of_forall_constGet?_eq hlookup).keys_eq

/-- Profiles are added up to the first that cannot be read. -/
theorem exists_addAll (r : ProfileRegistry) (count : Nat) (results : List (Except Error Profile)) :
    ∃ (before : List Profile) (rest : List (Except Error Profile)),
      results = before.map .ok ++ rest ∧ (r.addAll count results).1 = before.foldl insert r ∧
        (rest = [] ∧ (r.addAll count results).2 = .ok (count + before.length) ∨
          ∃ e more, rest = .error e :: more ∧ (r.addAll count results).2 = .error e) := by
  induction results generalizing r count with
  | nil => exact ⟨[], [], rfl, rfl, Or.inl ⟨rfl, rfl⟩⟩
  | cons result results ih =>
    cases result with
    | error e => exact ⟨[], .error e :: results, rfl, rfl, Or.inr ⟨e, results, rfl, rfl⟩⟩
    | ok p =>
      obtain ⟨before, rest, hresults, hloaded, hrest⟩ := ih (r.insert p) (count + 1)
      refine ⟨p :: before, rest, by rw [hresults]; rfl, hloaded, ?_⟩
      rw [List.length_cons, Nat.add_comm before.length, ← Nat.add_assoc]
      exact hrest

theorem addAll_eq_error {count : Nat} {results : List (Except Error Profile)}
    (h : r.addAll count results = (loaded, .error e)) :
    ∃ (before : List Profile) (rest : List (Except Error Profile)),
      results = before.map .ok ++ .error e :: rest ∧ loaded = before.foldl insert r := by
  obtain ⟨before, rest, hresults, hloaded, hrest⟩ := exists_addAll r count results
  rw [h] at hloaded hrest
  rcases hrest with ⟨_, hok⟩ | ⟨e', more, rfl, herror⟩
  · cases hok
  · cases herror
    exact ⟨before, more, hresults, hloaded⟩

theorem get_foldl_insert_of_not_mem {ps : List Profile} {id : String}
    (h : id ∉ ps.map Profile.identifier) : (ps.foldl insert r).get id = r.get id := by
  induction ps generalizing r with
  | nil => rfl
  | cons p ps ih =>
    rw [List.map_cons, List.mem_cons, not_or] at h
    rw [List.foldl_cons, ih h.2, get_insert, if_neg (Ne.symm h.1)]

theorem get_foldl_insert_of_mem {ps : List Profile} (hids : (ps.map Profile.identifier).Nodup)
    {p : Profile} (h : p ∈ ps) : (ps.foldl insert r).get p.identifier = .ok p := by
  induction ps generalizing r with
  | nil => cases h
  | cons first ps ih =>
    rw [List.map_cons, List.nodup_cons] at hids
    rw [List.foldl_cons]
    rcases List.mem_cons.1 h with rfl | h
    · rw [get_foldl_insert_of_not_mem hids.1, get_insert, if_pos rfl]
    · exact ih hids.2 h

theorem get_of_profiles_eq_cons {p : Profile} {more : List (Except Error Profile)}
    (h : Properties.profiles text = .ok p :: more) :
    (r.loadProperties text).1.get p.identifier = .ok p := by
  obtain ⟨before, rest, hprofiles, hloaded, hrest⟩ := r.exists_addAll 0 (Properties.profiles text)
  have hp : p ∈ before := by
    cases before with
    | nil =>
      rcases hrest with ⟨rfl, -⟩ | ⟨e, more, rfl, -⟩ <;> rw [hprofiles] at h <;> cases h
    | cons q before =>
      rw [hprofiles] at h
      cases (List.cons.inj h).1
      exact List.mem_cons_self
  rw [loadProperties, hloaded]
  exact get_foldl_insert_of_mem (Properties.nodup_of_profiles_eq hprofiles) hp

open Properties in
theorem name_of_get {id : String} {p : Profile}
    (h : (loadProperties {} text).1.get id = .ok p) :
    (ofText text)[keyOf id "name"]? = some p.name := by
  obtain ⟨before, rest, hprofiles, hloaded, -⟩ := exists_addAll {} 0 (Properties.profiles text)
  rw [loadProperties, hloaded] at h
  by_cases hid : id ∈ before.map Profile.identifier
  · obtain ⟨q, hq, rfl⟩ := List.mem_map.1 hid
    rw [get_foldl_insert_of_mem (nodup_of_profiles_eq hprofiles) hq] at h
    cases h
    have hmem : .ok p ∈ Properties.profiles text := by
      rw [hprofiles]
      exact List.mem_append_left _ (List.mem_map_of_mem hq)
    obtain ⟨id, hid, hp⟩ := List.mem_map.1 hmem
    obtain ⟨hidentifier, hname⟩ := called_profileOf hp
    obtain ⟨value, hvalue⟩ : ∃ value, (ofText text)[keyOf id "name"]? = some value := by
      rw [← Option.isSome_iff_exists, ← Std.TreeMap.mem_iff_isSome_getElem?]
      exact mem_identifiers_iff.1 hid
    rw [hidentifier, hname, getElem?_attributesOf_of_not_mem hid (by decide) hvalue, hvalue,
      Option.getD_some]
  · rw [get_foldl_insert_of_not_mem hid] at h
    cases h

/-- Adding changes nothing exactly if all that is added is there. -/
theorem sameAs_foldl_insert_iff {ps : List Profile} (hids : (ps.map Profile.identifier).Nodup) :
    (ps.foldl insert r).SameAs r ↔ ∀ p ∈ ps, r.get p.identifier = .ok p := by
  rw [sameAs_iff]
  constructor
  · intro h p hp
    rw [← h, get_foldl_insert_of_mem hids hp]
  · intro h id
    by_cases hid : id ∈ ps.map Profile.identifier
    · obtain ⟨p, hp, rfl⟩ := List.mem_map.1 hid
      rw [get_foldl_insert_of_mem hids hp, h p hp]
    · exact get_foldl_insert_of_not_mem hid

theorem addAll_map_ok (r : ProfileRegistry) (count : Nat) (ps : List Profile) :
    r.addAll count (ps.map .ok) = (ps.foldl insert r, .ok (count + ps.length)) := by
  induction ps generalizing r count with
  | nil => rfl
  | cons p ps ih =>
    rw [List.map_cons, addAll, ih, List.length_cons, Nat.add_right_comm, Nat.add_assoc]
    rfl

theorem loadJson_eq_error (h : r.loadJson text = (loaded, .error e)) : loaded = r := by
  rw [loadJson] at h
  split at h
  · rw [addAll_map_ok] at h
    cases h
  · cases h
    rfl

/-- A failure leaves the registry as it was if JSON is read. If properties are read then the
profiles in front of the faulty one are there, and the others are as they were; so nothing has
changed exactly if those in front were there already. -/
theorem of_load_eq_error (r : ProfileRegistry) (text : String) (e : Error) :
    ((r.loadJson text).2 = .error e → (r.loadJson text).1 = r) ∧
    ((r.loadProperties text).2 = .error e →
      ∃ (before : List Profile) (rest : List (Except Error Profile)),
      Properties.profiles text = before.map .ok ++ .error e :: rest ∧
      (∀ p ∈ before, (r.loadProperties text).1.get p.identifier = .ok p) ∧
      (∀ id, id ∉ before.map Profile.identifier →
        (r.loadProperties text).1.get id = r.get id) ∧
      ((r.loadProperties text).1.SameAs r ↔ ∀ p ∈ before, r.get p.identifier = .ok p)) := by
  constructor
  · intro h
    exact loadJson_eq_error (Prod.ext rfl h)
  · intro h
    cases hload : r.loadProperties text with
    | mk loaded result =>
      rw [hload] at h
      obtain rfl : result = .error e := h
      obtain ⟨before, rest, hprofiles, rfl⟩ := addAll_eq_error hload
      have hids := Properties.nodup_of_profiles_eq hprofiles
      exact ⟨before, rest, hprofiles, fun p => get_foldl_insert_of_mem hids,
        fun id => get_foldl_insert_of_not_mem, sameAs_foldl_insert_iff hids⟩

/-- In front of a profile without kinds another one is replaced, and a third one stays. -/
theorem of_load_eq_error_missing_kinds :
    let text :=
      "profile.a.name=new\nprofile.a.input=audio\nprofile.a.output=audio\nprofile.b.name=b"
    let old (id : String) : Profile :=
      { identifier := id, name := "old", input := .audioVisual, output := .audioVisual }
    let r := (({} : ProfileRegistry).insert (old "a")).insert (old "c")
    ∃ e p, (r.loadProperties text).2 = .error e ∧ p.name = "new" ∧
      (r.loadProperties text).1.get "a" = .ok p ∧
        (r.loadProperties text).1.get "c" = .ok (old "c") ∧
          ¬ (r.loadProperties text).1.SameAs r := by
  intro text old r
  have hread : (Properties.profiles text).map
      (fun result => result.toOption.map fun p => (p.identifier, p.name)) =
        [some ("a", "new"), none] := by decide +kernel
  have hfailed : (r.loadProperties text).2.toOption = none := by decide +kernel
  have hfirst : r.get "a" = .ok (old "a") := by
    rw [get_insert, if_neg (by decide), get_insert, if_pos rfl]
  have hthird : r.get "c" = .ok (old "c") := by rw [get_insert, if_pos rfl]
  clear_value r text
  cases hload : (r.loadProperties text).2 with
  | ok count =>
    rw [hload] at hfailed
    cases hfailed
  | error e =>
    obtain ⟨before, rest, hprofiles, hadded, hkept, hsame⟩ := (of_load_eq_error r text e).2 hload
    rw [hprofiles] at hread
    obtain ⟨p, rfl, hid, hname⟩ : ∃ p, before = [p] ∧ p.identifier = "a" ∧ p.name = "new" := by
      rcases before with _ | ⟨p, _ | ⟨q, before⟩⟩
      · cases hread
      · simp only [List.map_cons, List.map_nil, List.cons_append, List.nil_append] at hread
        have hread := Option.some.inj (List.cons.inj hread).1
        exact ⟨p, rfl, congrArg Prod.fst hread, congrArg Prod.snd hread⟩
      · simp [Except.toOption] at hread
    have hget := hadded p List.mem_cons_self
    rw [hid] at hget
    have hother : "c" ∉ [p].map Profile.identifier := by simp [hid]
    refine ⟨e, p, rfl, hname, hget, (hkept "c" hother).trans hthird, fun h => ?_⟩
    have hold := hsame.1 h p List.mem_cons_self
    rw [hid, hfirst] at hold
    rw [← Except.ok.inj hold] at hname
    exact absurd hname (by decide)

/-- The second profile has no kinds, and the first one stays behind. -/
theorem not_sameAs_of_missing_kinds :
    let text := "profile.a.name=a\nprofile.a.input=audio\nprofile.a.output=audio\nprofile.b.name=b"
    ∃ loaded e, ({} : ProfileRegistry).loadProperties text = (loaded, .error e) ∧
      loaded.ids = ["a"] ∧ ¬ loaded.SameAs {} := by
  intro text
  have hleft : (({} : ProfileRegistry).loadProperties text).map (·.ids) Except.toOption =
      (["a"], none) := by decide +kernel
  cases hload : ({} : ProfileRegistry).loadProperties text with
  | mk loaded result =>
    rw [hload] at hleft
    obtain ⟨hids, hfailed⟩ := Prod.mk.inj hleft
    cases result with
    | ok count => cases hfailed
    | error e =>
      refine ⟨loaded, e, rfl, hids, fun hsame => ?_⟩
      have hempty : ["a"] = ({} : ProfileRegistry).ids := hids.symm.trans hsame.ids
      cases hempty

end ProfileRegistry

end Montage
