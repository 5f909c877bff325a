import Montage.Proofs.Output.FanOut

/-!
# Delivery profiles with outputs of their own

Without a group, every profile is a delivery profile and contributes in its
place, whether it takes part or not. `Rewrites` says what becomes of the command
of one profile: the arguments with all placeholders resolved, and the options
that are left of them. The slot of a profile follows from these two alone
(`slots_of_build`), so the profiles before and behind it do not matter.
-/

namespace Montage

/-- The last argument names no file: it is a sink, a pipe or an option. -/
def IsDiscarded (token : String) : Prop :=
  token = "NUL" ∨ token = "/dev/null" ∨ Text.startsWith "pipe:" token ∨ Text.startsWith "-" token

theorem outputFile?_eq_some_iff {token : String} {file : Path} :
    outputFile? token = some file ↔ token = file.text ∧ ¬ IsDiscarded file.text := by
  unfold outputFile?
  by_cases h : IsDiscarded token
  · unfold IsDiscarded at h
    rw [if_pos h]
    constructor
    · intro hnone
      cases hnone
    · rintro ⟨rfl, hkept⟩
      exact absurd h hkept
  · have hkept := h
    unfold IsDiscarded at h
    rw [if_neg h]
    constructor
    · intro hsome
      cases hsome
      exact ⟨rfl, hkept⟩
    · rintro ⟨rfl, -⟩
      rfl

theorem targetOf?_eq_some_iff {arguments : List String} {file : Path} :
    targetOf? arguments = some file ↔
      arguments.getLast? = some file.text ∧ ¬ IsDiscarded file.text := by
  rw [targetOf?, Option.bind_eq_some_iff]
  constructor
  · rintro ⟨token, hlast, hfile⟩
    obtain ⟨rfl, hkept⟩ := outputFile?_eq_some_iff.1 hfile
    exact ⟨hlast, hkept⟩
  · rintro ⟨hlast, hkept⟩
    exact ⟨file.text, hlast, outputFile?_eq_some_iff.2 ⟨rfl, hkept⟩⟩

namespace FanOut

/-- The command of a delivery profile becomes `arguments`, and `options` are left
of them. -/
def Rewrites (params : Parameters) (dropCopy : Bool) (p : Profile) (id : String)
    (arguments options : List String) : Prop :=
  ∃ command words directives, p.command = .ok command ∧ Words.tokenize command = .ok words ∧
    arguments = Template.arguments (outputParameters params p id) words ∧
      Directive.parse p.identifier false arguments = .ok directives ∧
        options = directives.flatMap (Directive.options .own dropCopy)

variable {ids : Nat → String} {profiles : List Profile} {params : Parameters} {pads : StreamPads}
  {f : FanOut} {dropCopy : Bool}

theorem exists_rewrites_of_ownOutput {p : Profile} {id : String} {c : Contribution}
    (h : ownOutput params dropCopy p id = .ok c) :
    ∃ arguments options, Rewrites params dropCopy p id arguments options ∧ c.options = options ∧
      c.file = if options ≠ [] then targetOf? arguments else none := by
  obtain ⟨command, hcommand, h⟩ := bind_eq_ok_iff.1 h
  obtain ⟨words, hwords, h⟩ := bind_eq_ok_iff.1 h
  obtain ⟨c', hc', h⟩ := bind_eq_ok_iff.1 h
  obtain ⟨directives, hdirectives, rfl⟩ := map_eq_ok_iff.1 hc'
  cases h
  refine ⟨_, _, ⟨command, words, directives, hcommand, hwords, rfl, hdirectives, rfl⟩, rfl, ?_⟩
  simp [Contribution.isActive, Contribution.ofDirectives]

theorem getElem?_ownOutputs {position : Nat} {cs : List Contribution}
    (h : ownOutputs params dropCopy ids position profiles = .ok cs) :
    cs.length = profiles.length ∧ ∀ n p, profiles[n]? = some p →
      ∃ c, cs[n]? = some c ∧ ownOutput params dropCopy p (ids (position + n)) = .ok c := by
  induction profiles generalizing position cs with
  | nil =>
      cases h
      exact ⟨rfl, by simp⟩
  | cons first rest ih =>
      obtain ⟨c, hc, h⟩ := bind_eq_ok_iff.1 h
      obtain ⟨cs', hcs', h⟩ := bind_eq_ok_iff.1 h
      cases h
      obtain ⟨hlength, hrest⟩ := ih hcs'
      refine ⟨by simp [hlength], ?_⟩
      intro n p hp
      cases n with
      | zero =>
          cases hp
          exact ⟨c, rfl, hc⟩
      | succ n =>
          obtain ⟨d, hd, hown⟩ := hrest n p hp
          refine ⟨d, hd, ?_⟩
          rw [show position + (n + 1) = position + 1 + n by omega]
          exact hown

theorem foldlM_add_of_delivery (h : ∀ p ∈ profiles, p.adaptiveType? = none) (roles : Roles) :
    profiles.foldlM Roles.add roles =
      .ok { roles with delivery := roles.delivery ++ profiles } := by
  induction profiles generalizing roles with
  | nil => simp [pure, Except.pure]
  | cons p profiles ih =>
      have hadd : roles.add p = .ok { roles with delivery := roles.delivery ++ [p] } := by
        rw [Roles.add, h p List.mem_cons_self]
      have hrest := ih (fun q hq => h q (List.mem_cons_of_mem _ hq))
        { roles with delivery := roles.delivery ++ [p] }
      rw [List.foldlM_cons, hadd]
      show profiles.foldlM Roles.add _ = _
      rw [hrest, List.append_assoc, List.singleton_append]

theorem rolesOf_of_delivery (h : ∀ p ∈ profiles, p.adaptiveType? = none) :
    rolesOf profiles = .ok ⟨profiles, none⟩ :=
  foldlM_add_of_delivery h ⟨[], none⟩

theorem eq_of_rolesOf_of_delivery (h : ∀ p ∈ profiles, p.adaptiveType? = none) {roles : Roles}
    (hroles : rolesOf profiles = .ok roles) : roles = ⟨profiles, none⟩ :=
  Except.ok.inj (hroles.symm.trans (rolesOf_of_delivery h))

/-- Without a group every profile has its slot, and the slot expects the file
that the last argument of a profile with options names. -/
theorem slots_of_build (hdelivery : ∀ p ∈ profiles, p.adaptiveType? = none)
    (h : build ids profiles params pads = .ok f) :
    f.adaptive = false ∧ f.slots.length = profiles.length ∧ ∀ n p, profiles[n]? = some p →
      ∃ arguments options, Rewrites params (1 < profiles.length) p (ids n) arguments options ∧
        f.slots[n]? =
          some ⟨p.identifier, if options ≠ [] then targetOf? arguments else none⟩ := by
  obtain ⟨roles, cs, hroles, hassembled⟩ := exists_assembled h
  obtain rfl := eq_of_rolesOf_of_delivery hdelivery hroles
  have howns : ownOutputs params (1 < profiles.length) ids 0 profiles = .ok cs :=
    hassembled.contributions_eq
  obtain ⟨hlength, hplaces⟩ := getElem?_ownOutputs howns
  refine ⟨hassembled.adaptive_eq, ?_, ?_⟩
  · rw [hassembled.slots_eq]
    simp [hlength]
  · intro n p hp
    obtain ⟨c, hc, hown⟩ := hplaces n p hp
    obtain ⟨arguments, options, hrewrites, _, hfile⟩ := exists_rewrites_of_ownOutput hown
    rw [Nat.zero_add] at hrewrites
    refine ⟨arguments, options, hrewrites, ?_⟩
    have hzip : (profiles.zip cs)[n]? = some (p, c) := List.getElem?_zip_eq_some.2 ⟨hp, hc⟩
    rw [hassembled.slots_eq, List.getElem?_map, hzip, ← hfile]
    rfl

end FanOut

end Montage
