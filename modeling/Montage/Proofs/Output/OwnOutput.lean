import Montage.Proofs.Output.Delivery
import Montage.Proofs.Output.NestedGraphs

/-!
# Outputs of their own

Without a group each delivery profile has an output of its own, and what it contributes
follows from the directives of its command (`ownOutputs_eq`). The directives say neither
more nor less than the arguments: written out again they are the arguments that were read,
and each is of the kind that its first argument asks for (`Directive.of_parse`).
-/

namespace Montage

theorem OptionRole.eq_of_of_eq_input {variant : Bool} {option : String}
    (h : OptionRole.of variant option = .input) : option = "-i" := by
  simp only [OptionRole.of] at h
  split_ifs at h with _ _ _ hinput
  exact beq_iff_eq.1 hinput

theorem OptionRole.of_false_cases (option : String) :
    OptionRole.of false option ≠ .maxRate ∧
      ∀ kind, OptionRole.of false option ≠ .bitrate kind := by
  simp only [OptionRole.of, Bool.not_false, if_true]
  split_ifs <;> simp

namespace Directive

variable {profile : String} {variant : Bool} {arguments : List String} {ds : List Directive}

def role : Directive → OptionRole
  | filter kind _ _ => .filter kind
  | input _ => .input
  | codec _ _ => .codec
  | bitrate kind _ _ => .bitrate kind
  | maxRate _ _ => .maxRate
  | other _ => .other

theorem arguments_ne_nil (d : Directive) : d.arguments ≠ [] := by
  cases d <;> simp [Directive.arguments]

theorem role_of_valued? {role : OptionRole} {option value : String} {d : Directive}
    (h : valued? role option value = some d) : d.role = role := by
  cases role <;> cases h <;> rfl

theorem exists_valued? {role : OptionRole} (hgraph : role ≠ .nestedGraph) (hother : role ≠ .other)
    (hinput : role ≠ .input) (option value : String) : ∃ d, valued? role option value = some d := by
  cases role with
  | nestedGraph => exact absurd rfl hgraph
  | other => exact absurd rfl hother
  | input => exact absurd rfl hinput
  | _ => exact ⟨_, rfl⟩

def IsRead (variant : Bool) (d : Directive) : Prop :=
  ∀ option ∈ d.arguments.head?, OptionRole.of variant option = d.role

theorem isRead_input {variant : Bool} (h : OptionRole.of variant "-i" = .input)
    (file : Option String) : (input file).IsRead variant := by
  intro option hoption
  cases hoption
  exact h

/-- Reading loses nothing, and the first argument of a directive decides what it is. -/
theorem of_parse (h : parse profile variant arguments = .ok ds) :
    ds.flatMap Directive.arguments = arguments ∧ ∀ d ∈ ds, d.IsRead variant := by
  -- a directive in front of the others that were read
  have hcons {d : Directive} {front rest : List String} {ds : List Directive}
      (hfront : d.arguments = front) (hd : d.IsRead variant)
      (hrest : ds.flatMap Directive.arguments = rest ∧ ∀ d ∈ ds, d.IsRead variant) :
      (d :: ds).flatMap Directive.arguments = front ++ rest ∧
        ∀ e ∈ d :: ds, e.IsRead variant := by
    rw [List.flatMap_cons, hfront, hrest.1]
    exact ⟨rfl, List.forall_mem_cons.2 ⟨hd, hrest.2⟩⟩
  fun_induction parse profile variant arguments generalizing ds with
  | case1 =>
    cases h
    simp
  | case2 => cases h
  | case3 option rest hrole ih =>
    obtain ⟨ds, hds, rfl⟩ := map_eq_ok_iff.1 h
    refine hcons (d := other option) rfl ?_ (ih hds)
    simpa [IsRead, Directive.arguments, role] using hrole
  | case4 option hrole =>
    obtain rfl := OptionRole.eq_of_of_eq_input hrole
    cases h
    exact hcons (d := input none) rfl (isRead_input hrole none) ⟨rfl, by simp⟩
  | case5 option hrole file rest ih =>
    obtain rfl := OptionRole.eq_of_of_eq_input hrole
    obtain ⟨ds, hds, rfl⟩ := map_eq_ok_iff.1 h
    exact hcons (d := input (some file)) rfl (isRead_input hrole (some file)) (ih hds)
  | case6 => cases h
  | case7 option value rest hgraph hother hinput ih =>
    obtain ⟨ds, hds, rfl⟩ := map_eq_ok_iff.1 h
    obtain ⟨d, hd⟩ := exists_valued? hgraph hother hinput option value
    rw [hd, Option.toList_some, List.singleton_append]
    refine hcons (arguments_of_valued? hd) ?_ (ih hds)
    simp [IsRead, arguments_of_valued? hd, role_of_valued? hd]

/-- Something is left of the directive, where codecs that copy are dropped or where they
are not. -/
def survives (dropCopy : Bool) : Directive → Bool
  | codec _ value => !(dropCopy && Text.contains "copy" value)
  | maxRate _ _ | other _ => true
  | filter .. | input _ | bitrate .. => false

def surviving (dropCopy : Bool) (ds : List Directive) : List Directive :=
  ds.filter (survives dropCopy)

theorem options_own (dropCopy : Bool) (d : Directive) :
    d.options .own dropCopy = if d.survives dropCopy then d.arguments else [] := by
  cases d with
  | codec option value =>
    cases h : dropCopy && Text.contains "copy" value <;>
      simp [options, survives, h, Directive.arguments, Part.keep, Part.codecOption]
  | _ => rfl

theorem flatMap_options_own (dropCopy : Bool) (ds : List Directive) :
    ds.flatMap (options .own dropCopy) = (surviving dropCopy ds).flatMap Directive.arguments := by
  induction ds with
  | nil => rfl
  | cons d ds ih =>
    rw [List.flatMap_cons, ih, options_own, surviving, surviving, List.filter_cons]
    split <;> rfl

end Directive

namespace FanOut

variable {ids : Nat → String} {profiles : List Profile} {params : Parameters} {pads : StreamPads}
  {f : FanOut}

def ownContribution (dropCopy : Bool) (ds : List Directive) : Contribution :=
  let c := Contribution.ofDirectives .own dropCopy ds
  { c with file := if c.isActive then targetOf? (ds.flatMap Directive.arguments) else none }

/-- The directives of profiles with outputs of their own; `position` is the place of the
first one. -/
def ownReadings (params : Parameters) (ids : Nat → String) (position : Nat)
    (profiles : List Profile) : Except Error (List (List Directive)) :=
  (profiles.zipIdx position).mapM fun x => ownDirectives params x.1 (ids x.2)

theorem ownOutput_eq (params : Parameters) (dropCopy : Bool) (p : Profile) (id : String) :
    ownOutput params dropCopy p id = (ownDirectives params p id).map (ownContribution dropCopy) := by
  unfold ownOutput ownDirectives
  cases p.command with
  | error e => rfl
  | ok command =>
    simp only [bind, Except.bind]
    cases Words.tokenize command with
    | error e => rfl
    | ok words =>
      simp only [Contribution.ofArguments, Part.isVariant]
      cases hds : Directive.parse p.identifier false
          (Template.arguments (outputParameters params p id) words) with
      | error e => rfl
      | ok ds =>
        simp [Except.map, ownContribution, (Directive.of_parse hds).1, pure, Except.pure]

theorem ownReadings_cons (params : Parameters) (ids : Nat → String) (position : Nat) (p : Profile)
    (profiles : List Profile) :
    ownReadings params ids position (p :: profiles) = do
      let ds ← ownDirectives params p (ids position)
      return ds :: (← ownReadings params ids (position + 1) profiles) := by
  rw [ownReadings, List.zipIdx_cons, List.mapM_cons]
  rfl

theorem ownOutputs_eq (params : Parameters) (dropCopy : Bool) (ids : Nat → String) (position : Nat)
    (profiles : List Profile) :
    ownOutputs params dropCopy ids position profiles =
      (ownReadings params ids position profiles).map (List.map (ownContribution dropCopy)) := by
  induction profiles generalizing position with
  | nil => rfl
  | cons p profiles ih =>
    rw [ownOutputs, ownOutput_eq, ih, ownReadings_cons]
    cases ownDirectives params p (ids position) with
    | error e => rfl
    | ok ds =>
      cases ownReadings params ids (position + 1) profiles with
      | error e => rfl
      | ok rest => rfl

theorem forall₂_ownReadings {position : Nat} {read : List (List Directive)}
    (h : ownReadings params ids position profiles = .ok read) :
    List.Forall₂ (fun x ds => ownDirectives params x.1 (ids x.2) = .ok ds)
      (profiles.zipIdx position) read := by
  induction profiles generalizing position read with
  | nil =>
    cases h
    exact .nil
  | cons p profiles ih =>
    rw [ownReadings_cons] at h
    obtain ⟨ds, hds, h⟩ := bind_eq_ok_iff.1 h
    obtain ⟨rest, hrest, h⟩ := bind_eq_ok_iff.1 h
    cases h
    exact .cons hds (ih hrest)

theorem length_ownReadings {position : Nat} {read : List (List Directive)}
    (h : ownReadings params ids position profiles = .ok read) : read.length = profiles.length := by
  rw [← (forall₂_ownReadings h).length_eq, List.length_zipIdx]

theorem exists_of_mem_ownReadings {position : Nat} {read : List (List Directive)}
    (h : ownReadings params ids position profiles = .ok read) {ds : List Directive}
    (hds : ds ∈ read) :
    ∃ p k, (p, k) ∈ profiles.zipIdx position ∧ ownDirectives params p (ids k) = .ok ds := by
  obtain ⟨index, hindex, rfl⟩ := List.getElem_of_mem hds
  have hplaces := List.forall₂_iff_get.1 (forall₂_ownReadings h)
  have hplace : index < (profiles.zipIdx position).length := hplaces.1 ▸ hindex
  exact ⟨_, _, List.getElem_mem hplace, hplaces.2 index hplace hindex⟩

theorem isRead_of_mem_ownReadings {position : Nat} {read : List (List Directive)}
    (h : ownReadings params ids position profiles = .ok read) :
    ∀ ds ∈ read, ∀ d ∈ ds, d.IsRead false := by
  intro ds hds
  obtain ⟨p, k, _, howns⟩ := exists_of_mem_ownReadings h hds
  obtain ⟨_, _, howns⟩ := bind_eq_ok_iff.1 howns
  obtain ⟨_, _, howns⟩ := bind_eq_ok_iff.1 howns
  exact (Directive.of_parse howns).2

theorem deliveryDirectives_of_delivery (hdelivery : ∀ p ∈ profiles, p.adaptiveType? = none) :
    deliveryDirectives ids params profiles = ownReadings params ids 0 profiles := by
  have hroles := rolesOf_eq_ok (rolesOf_of_delivery hdelivery)
  have hall : profiles = delivery profiles := congrArg Roles.delivery hroles
  have hgroup : none = group? profiles := congrArg Roles.group hroles
  rw [deliveryDirectives, ← hgroup, ← hall]
  rfl

theorem comesFrom_ownContribution (dropCopy : Bool) (ds : List Directive) :
    (ownContribution dropCopy ds).ComesFrom dropCopy ds :=
  ⟨⟨.own, rfl⟩, fun _ => rfl, fun _ => rfl⟩

theorem active_ownContributions (dropCopy : Bool) (read : List (List Directive)) :
    active (read.map (ownContribution dropCopy)) =
      (taking dropCopy read).map (ownContribution dropCopy) := by
  rw [active, List.filter_map, taking]
  congr 1
  apply List.filter_congr
  intro ds _
  exact (comesFrom_ownContribution dropCopy ds).isActive_eq

theorem options_ne_nil_of_mem_taking {dropCopy : Bool} {read : List (List Directive)}
    {ds : List Directive} (h : ds ∈ taking dropCopy read) :
    (ownContribution dropCopy ds).options ≠ [] := by
  have hactive := (comesFrom_ownContribution dropCopy ds).isActive_eq
  rw [(List.mem_filter.1 h).2, Contribution.isActive] at hactive
  simpa using hactive

theorem exists_pad_of_build (h : build ids profiles params pads = .ok f) :
    ∃ kind pad, pads.pad? kind = some pad := by
  cases hvideo : pads.video with
  | some pad => exact ⟨.video, pad, hvideo⟩
  | none =>
    cases haudio : pads.audio with
    | some pad => exact ⟨.audio, pad, haudio⟩
    | none =>
      rw [build, hvideo, haudio] at h
      cases h

theorem exists_of_build_own (hdelivery : ∀ p ∈ profiles, p.adaptiveType? = none)
    (h : build ids profiles params pads = .ok f) :
    ∃ read, ownReadings params ids 0 profiles = .ok read ∧
      Assembled ids params pads ⟨profiles, none⟩
        (read.map (ownContribution (1 < profiles.length))) f ∧
      f.arguments = outputGroups f.video f.audio
        ((taking (1 < profiles.length) read).map (ownContribution (1 < profiles.length))) := by
  obtain ⟨roles, cs, trailing, hroles, hassembled, htrailing, harguments⟩ :=
    exists_assembled_trailing h
  obtain rfl := eq_of_rolesOf_of_delivery hdelivery hroles
  have howns : ownOutputs params (1 < profiles.length) ids 0 profiles = .ok cs :=
    hassembled.contributions_eq
  rw [ownOutputs_eq] at howns
  obtain ⟨read, hread, rfl⟩ := map_eq_ok_iff.1 howns
  cases htrailing
  refine ⟨read, hread, hassembled, ?_⟩
  rw [harguments, List.append_nil, active_ownContributions]

end FanOut

end Montage
