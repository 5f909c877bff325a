import Montage.Profile.Properties
import Montage.Proofs.Lookup
import Montage.Proofs.Text.Search

/-!
# Whose a key is

The names tell the identifiers (`mem_identifiers_iff`), and a key belongs to the longest
identifier that stands in front of a dot in it (`owner?_eq_some_iff`).
-/

namespace Montage.Properties

def keyOf (id key : String) : String := keyStart ++ (id ++ "." ++ key)

/-- Only the key of a name ends like the key of a name. -/
theorem eq_of_keyOf_eq_name {id id' key : String} (h : keyOf id key = keyOf id' "name")
    (hkey : ¬ ".name".toList <:+ key.toList) : id = id' := by
  rw [keyOf, keyOf, String.append_right_inj, ← String.toList_inj] at h
  simp only [String.toList_append, List.append_assoc] at h
  have hdot : ".".toList ++ "name".toList = ".name".toList := rfl
  rw [hdot, List.append_eq_append_iff] at h
  rcases h with ⟨front, hid, hrest⟩ | ⟨front, hid, hrest⟩
  · cases front with
    | nil => exact String.toList_inj.1 (by rw [hid, List.append_nil])
    | cons c front => exact absurd ⟨front, (List.cons.inj hrest).2.symm⟩ hkey
  · cases front with
    | nil => exact String.toList_inj.1 (by rw [hid, List.append_nil])
    | cons c front =>
      have hname : "name".toList = front ++ '.' :: key.toList := (List.cons.inj hrest).2
      have hmem : '.' ∈ "name".toList := by simp [hname]
      exact absurd hmem (by decide)

section

variable {properties : Std.TreeMap String String}

theorem mem_identifiers_iff {id : String} :
    id ∈ identifiers properties ↔ keyOf id "name" ∈ properties := by
  have hname (key : String) : (Text.dropStart? keyStart key).bind (Text.dropEnd? ".name") =
      some id ↔ key = keyOf id "name" := by
    simp only [Option.bind_eq_some_iff, Text.dropStart?_eq_some_iff, Text.dropEnd?_eq_some_iff]
    have hkeyOf : keyOf id "name" = keyStart ++ (id ++ ".name") :=
      congrArg (keyStart ++ ·) String.append_assoc
    constructor
    · rintro ⟨rest, rfl, rfl⟩
      exact hkeyOf.symm
    · rintro rfl
      exact ⟨id ++ ".name", hkeyOf, rfl⟩
  rw [identifiers, Std.TreeMap.mem_keys, Std.TreeMap.mem_ofList, List.contains_iff_mem,
    List.map_filterMap, List.mem_filterMap]
  simp only [Option.map_map, Option.map_eq_some_iff, Function.comp_apply, exists_eq_right, hname,
    Std.TreeMap.mem_keys]

theorem nodup_identifiers (properties : Std.TreeMap String String) :
    (identifiers properties).Nodup := Std.TreeMap.nodup_keys

end

section

variable {isId : String → Bool} {before cs : List Char}

theorem ownerFrom?_cons (c : Char) :
    ownerFrom? isId before (c :: cs) = (ownerFrom? isId (before ++ [c]) cs).or
      (if c = '.' ∧ isId (String.ofList before) then
        some (String.ofList before, String.ofList cs)
      else none) := by
  rw [ownerFrom?]
  cases ownerFrom? isId (before ++ [c]) cs <;> rfl

theorem ownerFrom?_eq_none_iff :
    ownerFrom? isId before cs = none ↔
      ∀ a b, cs = a ++ '.' :: b → isId (String.ofList (before ++ a)) = false := by
  induction cs generalizing before with
  | nil => simp [ownerFrom?]
  | cons c cs ih =>
    rw [ownerFrom?_cons, Option.or_eq_none_iff, ih, ite_eq_right_iff]
    constructor
    · rintro ⟨hrest, hhere⟩ a b hab
      rcases List.cons_eq_append_iff.1 hab with ⟨rfl, hcs⟩ | ⟨a, rfl, rfl⟩
      · obtain ⟨rfl, rfl⟩ := List.cons.inj hcs
        simpa using hhere
      · rw [List.append_cons]
        exact hrest a b rfl
    · intro h
      refine ⟨fun a b hab => ?_, fun hc => ?_⟩
      · rw [← List.append_cons]
        exact h (c :: a) b (by rw [hab]; rfl)
      · have hhere := h [] cs (by rw [hc.1]; rfl)
        rw [List.append_nil, hc.2] at hhere
        cases hhere

/-- The owner is the identifier in front of the last dot that has one in front of it. -/
theorem ownerFrom?_eq_some_iff {id key : String} :
    ownerFrom? isId before cs = some (id, key) ↔
      ∃ a b, cs = a ++ '.' :: b ∧ String.ofList (before ++ a) = id ∧ String.ofList b = key ∧
        isId id = true ∧
        ∀ r rest, b = r ++ '.' :: rest → isId (String.ofList (before ++ a ++ '.' :: r)) = false := by
  induction cs generalizing before with
  | nil => simp [ownerFrom?]
  | cons c cs ih =>
    rw [ownerFrom?_cons, Option.or_eq_some_iff, ih, ownerFrom?_eq_none_iff,
      Option.ite_none_right_eq_some, Option.some_inj, Prod.mk.injEq]
    constructor
    · rintro (⟨a, b, rfl, hid, hkey, his, hlongest⟩ | ⟨hnone, ⟨rfl, his⟩, rfl, rfl⟩)
      · rw [← List.append_cons] at hid hlongest
        exact ⟨c :: a, b, rfl, hid, hkey, his, hlongest⟩
      · refine ⟨[], cs, rfl, by rw [List.append_nil], rfl, his, fun r rest hr => ?_⟩
        rw [List.append_nil, List.append_cons]
        exact hnone r rest hr
    · rintro ⟨a, b, hcs, hid, hkey, his, hlongest⟩
      rcases List.cons_eq_append_iff.1 hcs with ⟨rfl, hb⟩ | ⟨a, rfl, rfl⟩
      · obtain ⟨rfl, rfl⟩ := List.cons.inj hb
        rw [List.append_nil] at hid hlongest
        subst hid
        refine .inr ⟨fun r rest hr => ?_, ⟨rfl, his⟩, rfl, hkey⟩
        rw [← List.append_cons]
        exact hlongest r rest hr
      · rw [List.append_cons] at hid hlongest
        exact .inl ⟨a, b, rfl, hid, hkey, his, hlongest⟩

end

theorem ofList_append_cons (a b : List Char) :
    String.ofList (a ++ '.' :: b) = String.ofList a ++ "." ++ String.ofList b := by
  simp [← String.toList_inj]

/-- A key belongs to an identifier in front of a dot in it, unless a longer one stands in
front of a dot. -/
theorem owner?_eq_some_iff {ids : List String} {full id key : String} :
    owner? ids full = some (id, key) ↔
      full = keyOf id key ∧ id ∈ ids ∧
        ∀ r rest, key = r ++ "." ++ rest → id ++ "." ++ r ∉ ids := by
  rw [owner?, Option.bind_eq_some_iff]
  simp only [Text.dropStart?_eq_some_iff, ownerFrom?_eq_some_iff, List.nil_append,
    List.contains_iff_mem, ofList_append_cons]
  constructor
  · rintro ⟨rest, rfl, a, b, hrest, rfl, rfl, hmem, hlongest⟩
    refine ⟨?_, hmem, fun r rest hr => ?_⟩
    · rw [keyOf, ← ofList_append_cons, ← hrest, String.ofList_toList]
    · have hb : b = r.toList ++ '.' :: rest.toList := by
        simpa [← String.toList_inj] using hr
      have hnone := hlongest _ _ hb
      rw [String.ofList_toList] at hnone
      rw [← List.contains_iff_mem, hnone]
      exact Bool.false_ne_true
  · rintro ⟨rfl, hmem, hlongest⟩
    refine ⟨_, rfl, id.toList, key.toList, by simp, String.ofList_toList, String.ofList_toList,
      hmem, fun r rest hr => ?_⟩
    have hkey : key = String.ofList r ++ "." ++ String.ofList rest := by
      rw [← ofList_append_cons, ← hr, String.ofList_toList]
    rw [String.ofList_toList, List.contains_eq_mem, decide_eq_false_iff_not]
    exact hlongest _ _ hkey

/-- The attributes of a profile are the properties whose keys belong to it. -/
theorem getElem?_attributesOf_iff {properties : Std.TreeMap String String} {ids : List String}
    {id key value : String} :
    (attributesOf properties ids id)[key]? = some value ↔
      properties[keyOf id key]? = some value ∧
        owner? ids (keyOf id key) = some (id, key) := by
  rw [attributesOf]
  refine getElem?_ofList_filterMap (r := fun key value => properties[keyOf id key]? = some value ∧
    owner? ids (keyOf id key) = some (id, key)) (fun key value => ?_) fun key v w hv hw => ?_
  · rw [← Std.TreeMap.mem_toList_iff_getElem?_eq_some]
    constructor
    · rintro ⟨⟨full, v⟩, hv, hfull⟩
      dsimp only at hfull
      split at hfull
      · rename_i owner rest howner
        rw [Option.ite_none_right_eq_some, Option.some_inj, Prod.mk.injEq] at hfull
        obtain ⟨rfl, rfl, rfl⟩ := hfull
        obtain rfl := (owner?_eq_some_iff.1 howner).1
        exact ⟨hv, howner⟩
      · cases hfull
    · rintro ⟨hv, howner⟩
      refine ⟨(keyOf id key, value), hv, ?_⟩
      simp only [howner, if_true]
  · exact Option.some_inj.1 (hv.1.symm.trans hw.1)

theorem getElem?_attributesOf_of_not_mem {properties : Std.TreeMap String String}
    {ids : List String} {id key value : String} (hid : id ∈ ids) (hkey : '.' ∉ key.toList)
    (h : properties[keyOf id key]? = some value) :
    (attributesOf properties ids id)[key]? = some value := by
  refine getElem?_attributesOf_iff.2 ⟨h, owner?_eq_some_iff.2 ⟨rfl, hid, ?_⟩⟩
  rintro r rest rfl
  simp at hkey

end Montage.Properties
