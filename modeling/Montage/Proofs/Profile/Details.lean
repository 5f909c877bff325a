import Montage.Profile.Properties
import Montage.Proofs.Lookup
import Montage.Proofs.Text.Search

/-!
# What a profile says besides its name and its kinds

A suffix, further suffixes, a type and the extensions are the details of a profile. An
attribute sets one of them and leaves the others (`detail?_withDetail`), so the profile
that attributes describe has the details that they name (`detail?_foldl_told`).
-/

namespace Montage.Profile

inductive Detail where
  | suffix
  | taggedSuffix (tag : String)
  | mimeType
  | extension (key : String)
  deriving DecidableEq

namespace Detail

def key : Detail → String
  | suffix => "suffix"
  | taggedSuffix tag => "suffix." ++ tag
  | mimeType => "mimetype"
  | extension key => key

/-- The detail that a key stands for; the name, the kinds and the load are none. -/
def ofKey? (key : String) : Option Detail :=
  match key with
  | "name" | "input" | "output" | "jobload" => none
  | "suffix" => some suffix
  | "mimetype" => some mimeType
  | key =>
    match Text.dropStart? "suffix." key with
    | some tag => some (taggedSuffix tag)
    | none => some (extension key)

theorem key_of_ofKey? {k : String} {d : Detail} (h : ofKey? k = some d) : d.key = k := by
  unfold ofKey? at h
  split at h
  any_goals cases h
  any_goals rfl
  split at h
  · rename_i tag htag
    cases h
    exact (Text.dropStart?_eq_some_iff.1 htag).symm
  · cases h
    rfl

def IsReserved (key : String) : Prop :=
  key ∈ ["name", "input", "output", "suffix", "mimetype", "jobload"] ∨
    "suffix.".toList <+: key.toList

instance (key : String) : Decidable (IsReserved key) :=
  inferInstanceAs (Decidable (_ ∨ _))

theorem ofKey?_extension {k : String} (h : ¬ IsReserved k) : ofKey? k = some (extension k) := by
  unfold ofKey?
  split
  case h_7 =>
    split
    · rename_i tag htag
      have hk := congrArg String.toList (Text.dropStart?_eq_some_iff.1 htag)
      rw [String.toList_append] at hk
      exact absurd (.inr ⟨tag.toList, hk.symm⟩) h
    · rfl
  all_goals exact absurd (.inl (by decide)) h

theorem ofKey?_taggedSuffix (tag : String) :
    ofKey? ("suffix." ++ tag) = some (taggedSuffix tag) := by
  unfold ofKey?
  split
  case h_7 => rw [Text.dropStart?_eq_some_iff.2 rfl]
  all_goals
    rename_i h
    have hlist := congrArg String.toList h
    simp at hlist

end Detail

def detail? (p : Profile) : Detail → Option String
  | .suffix => p.suffix
  | .taggedSuffix tag => p.taggedSuffixes[tag]?
  | .mimeType => p.mimeType
  | .extension key => p.extensions[key]?

def details (p : Profile) : List (Detail × String) :=
  p.suffix.toList.map (Detail.suffix, ·) ++
    p.taggedSuffixes.toList.map (fun (tag, value) => (Detail.taggedSuffix tag, value)) ++
    p.mimeType.toList.map (Detail.mimeType, ·) ++
    p.extensions.toList.map fun (key, value) => (Detail.extension key, value)

theorem mem_details_iff {p : Profile} {d : Detail} {value : String} :
    (d, value) ∈ p.details ↔ p.detail? d = some value := by
  cases d <;> simp [details, detail?, Std.TreeMap.mem_toList_iff_getElem?_eq_some]

def withDetail (p : Profile) (value : String) : Detail → Profile
  | .suffix => { p with suffix := some value }
  | .taggedSuffix tag => { p with taggedSuffixes := p.taggedSuffixes.insert tag value }
  | .mimeType => { p with mimeType := some value }
  | .extension key => { p with extensions := p.extensions.insert key value }

theorem detail?_withDetail (p : Profile) (value : String) (d d' : Detail) :
    (p.withDetail value d).detail? d' = if d = d' then some value else p.detail? d' := by
  cases d <;> cases d' <;> simp [withDetail, detail?, Std.TreeMap.getElem?_insert]

/-- What a profile says that is no detail. -/
def base (p : Profile) : String × String × MediaKind × MediaKind × Float32 :=
  (p.identifier, p.name, p.input, p.output, p.jobLoad)

@[simp] theorem base_withDetail (p : Profile) (value : String) (d : Detail) :
    (p.withDetail value d).base = p.base := by
  cases d <;> rfl

/-- Two profiles that say the same, whichever way their maps were made. -/
structure SameAs (p q : Profile) : Prop where
  identifier : p.identifier = q.identifier
  name : p.name = q.name
  input : p.input = q.input
  output : p.output = q.output
  suffix : p.suffix = q.suffix
  taggedSuffixes : p.taggedSuffixes.toList = q.taggedSuffixes.toList
  mimeType : p.mimeType = q.mimeType
  jobLoad : p.jobLoad = q.jobLoad
  extensions : p.extensions.toList = q.extensions.toList

theorem SameAs.of_details {p q : Profile} (hbase : p.base = q.base)
    (hdetails : ∀ d, p.detail? d = q.detail? d) : p.SameAs q where
  identifier := congrArg (·.1) hbase
  name := congrArg (·.2.1) hbase
  input := congrArg (·.2.2.1) hbase
  output := congrArg (·.2.2.2.1) hbase
  jobLoad := congrArg (·.2.2.2.2) hbase
  suffix := hdetails .suffix
  mimeType := hdetails .mimeType
  taggedSuffixes :=
    (Std.TreeMap.Equiv.of_forall_constGet?_eq fun tag => hdetails (.taggedSuffix tag)).toList_eq
  extensions :=
    (Std.TreeMap.Equiv.of_forall_constGet?_eq fun key => hdetails (.extension key)).toList_eq

def told (p : Profile) (key value : String) : Profile :=
  match Detail.ofKey? key with
  | some d => p.withDetail value d
  | none => p

theorem withAttribute_eq (p : Profile) {key : String} (h : key ≠ "jobload") (value : String) :
    Properties.withAttribute p key value = .ok (p.told key value) := by
  unfold Properties.withAttribute
  split
  case h_6 => exact absurd rfl h
  case h_7 hname hinput houtput hsuffix hmime hload =>
    split
    · rename_i tag htag
      rw [Text.dropStart?_eq_some_iff.1 htag, told, Detail.ofKey?_taggedSuffix]
      rfl
    · rename_i htag
      have hreserved : ¬ Detail.IsReserved key := by
        rintro (hmem | ⟨tag, htagged⟩)
        · simp only [List.mem_cons, List.not_mem_nil, or_false] at hmem
          rcases hmem with hk | hk | hk | hk | hk | hk
          exacts [hname hk, hinput hk, houtput hk, hsuffix hk, hmime hk, hload hk]
        · have hkey : key = "suffix." ++ String.ofList tag := by
            simp [← String.toList_inj, ← htagged]
          rw [Text.dropStart?_eq_some_iff.2 hkey] at htag
          cases htag
      rw [told, Detail.ofKey?_extension hreserved]
      rfl
  all_goals rfl

section

variable {p : Profile} {attributes : List (String × String)}

theorem foldlM_withAttribute (h : ∀ a ∈ attributes, a.1 ≠ "jobload") :
    attributes.foldlM (fun p (key, value) => Properties.withAttribute p key value) p =
      .ok (attributes.foldl (fun p a => p.told a.1 a.2) p) := by
  induction attributes generalizing p with
  | nil => rfl
  | cons a attributes ih =>
    rw [List.forall_mem_cons] at h
    obtain ⟨key, value⟩ := a
    simp only [List.foldlM_cons]
    rw [withAttribute_eq p h.1]
    exact ih h.2

theorem base_foldl_told : (attributes.foldl (fun p a => p.told a.1 a.2) p).base = p.base := by
  induction attributes generalizing p with
  | nil => rfl
  | cons a attributes ih =>
    rw [List.foldl_cons, ih, told]
    split
    · rw [base_withDetail]
    · rfl

theorem detail?_told (key value : String) (d : Detail) :
    (p.told key value).detail? d =
      if Detail.ofKey? key = some d then some value else p.detail? d := by
  rw [told]
  split
  · rename_i d' hd'
    rw [detail?_withDetail, hd']
    simp
  · rename_i hnone
    rw [hnone]
    simp

/-- The last attribute that names a detail says what it is. -/
theorem detail?_foldl_told (d : Detail) :
    (attributes.foldl (fun p a => p.told a.1 a.2) p).detail? d =
      (attributes.findSomeRev? fun a =>
        if Detail.ofKey? a.1 = some d then some a.2 else none).or (p.detail? d) := by
  induction attributes generalizing p with
  | nil => rfl
  | cons a attributes ih =>
    rw [List.foldl_cons, ih, detail?_told, List.findSomeRev?]
    generalize (attributes.findSomeRev? fun a =>
      if Detail.ofKey? a.1 = some d then some a.2 else none) = later
    cases later
    · split <;> rfl
    · rfl

end

end Montage.Profile
