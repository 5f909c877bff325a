import Montage.Proofs.Outcome
import Montage.Output.FanOut

/-!
# The roles of profiles

A profile without a type of its own delivers, and one of the type `HLS` describes
the group. Sorting profiles by their roles fails at any other type, so if it
succeeds the delivery profiles are those without a type, in their order, and the
group is the last one of the others.
-/

namespace Montage.FanOut

def IsGroup (p : Profile) : Prop := ∃ kind, p.adaptiveType? = some kind ∧ Text.lowerAscii kind = "hls"

instance (p : Profile) : Decidable (IsGroup p) :=
  decidable_of_iff (∃ kind ∈ p.adaptiveType?, Text.lowerAscii kind = "hls") (by simp [IsGroup])

/-- The profiles with outputs of their own, or that are variants of the group. -/
def delivery (profiles : List Profile) : List Profile :=
  profiles.filter fun p => p.adaptiveType?.isNone

/-- The profile that describes the group; of several the last one. -/
def group? (profiles : List Profile) : Option Profile :=
  (profiles.filter fun p => decide (IsGroup p)).getLast?

theorem delivery_append (profiles more : List Profile) :
    delivery (profiles ++ more) = delivery profiles ++ delivery more :=
  List.filter_append ..

theorem group?_append (profiles more : List Profile) :
    group? (profiles ++ more) = (group? more).or (group? profiles) := by
  rw [group?, List.filter_append, List.getLast?_append]
  rfl

theorem exists_group? {profiles : List Profile} (h : ∃ p ∈ profiles, IsGroup p) :
    ∃ group, group? profiles = some group := by
  obtain ⟨p, hp, hgroup⟩ := h
  have hmem : p ∈ profiles.filter fun p => decide (IsGroup p) := by simp [hp, hgroup]
  exact ⟨_, List.getLast?_eq_some_getLast (List.ne_nil_of_mem hmem)⟩

theorem add_eq_ok {roles roles' : Roles} {p : Profile} (h : roles.add p = .ok roles') :
    roles'.delivery = roles.delivery ++ delivery [p] ∧
      roles'.group = (group? [p]).or roles.group := by
  unfold Roles.add at h
  cases htype : p.adaptiveType? with
  | none =>
      have hgroup : ¬ IsGroup p := by simp [IsGroup, htype]
      rw [htype] at h
      cases h
      simp [delivery, group?, htype, hgroup]
  | some kind =>
      rw [htype] at h
      by_cases hkind : Text.lowerAscii kind = "hls"
      · have hgroup : IsGroup p := ⟨kind, htype, hkind⟩
        simp only [hkind, if_true] at h
        cases h
        simp [delivery, group?, htype, hgroup]
      · simp only [hkind, if_false] at h
        cases h

theorem foldlM_add_eq_ok {profiles : List Profile} {roles roles' : Roles}
    (h : profiles.foldlM Roles.add roles = .ok roles') :
    roles'.delivery = roles.delivery ++ delivery profiles ∧
      roles'.group = (group? profiles).or roles.group := by
  induction profiles generalizing roles with
  | nil =>
      cases h
      simp [delivery, group?]
  | cons p profiles ih =>
      rw [List.foldlM_cons] at h
      obtain ⟨added, hadd, hrest⟩ := bind_eq_ok_iff.1 h
      obtain ⟨hdelivery, hgroup⟩ := add_eq_ok hadd
      obtain ⟨hdelivery', hgroup'⟩ := ih hrest
      rw [← List.singleton_append, delivery_append, group?_append]
      constructor
      · rw [hdelivery', hdelivery, List.append_assoc]
      · rw [hgroup', hgroup, Option.or_assoc]

theorem rolesOf_eq_ok {profiles : List Profile} {roles : Roles} (h : rolesOf profiles = .ok roles) :
    roles = ⟨delivery profiles, group? profiles⟩ := by
  obtain ⟨hdelivery, hgroup⟩ := foldlM_add_eq_ok h
  cases roles
  simp_all

theorem cases_of_add_eq_ok {roles roles' : Roles} {p : Profile} (h : roles.add p = .ok roles') :
    p.adaptiveType? = none ∨ IsGroup p := by
  unfold Roles.add at h
  cases htype : p.adaptiveType? with
  | none => exact Or.inl rfl
  | some kind =>
      rw [htype] at h
      by_cases hkind : Text.lowerAscii kind = "hls"
      · exact Or.inr ⟨kind, htype, hkind⟩
      · simp only [hkind, if_false] at h
        cases h

theorem cases_of_foldlM_add_eq_ok {profiles : List Profile} {roles roles' : Roles}
    (h : profiles.foldlM Roles.add roles = .ok roles') :
    ∀ p ∈ profiles, p.adaptiveType? = none ∨ IsGroup p := by
  induction profiles generalizing roles with
  | nil => simp
  | cons p profiles ih =>
      rw [List.foldlM_cons] at h
      obtain ⟨added, hadd, hrest⟩ := bind_eq_ok_iff.1 h
      exact List.forall_mem_cons.2 ⟨cases_of_add_eq_ok hadd, ih hrest⟩

theorem forall_of_rolesOf_eq_ok {profiles : List Profile} {roles : Roles}
    (h : rolesOf profiles = .ok roles) (hgroup : roles.group = none) :
    ∀ p ∈ profiles, p.adaptiveType? = none := by
  intro p hp
  refine (cases_of_foldlM_add_eq_ok h p hp).resolve_right fun hisGroup => ?_
  obtain ⟨group, hfound⟩ := exists_group? ⟨p, hp, hisGroup⟩
  rw [rolesOf_eq_ok h, hfound] at hgroup
  cases hgroup

end Montage.FanOut
