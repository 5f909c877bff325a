import Montage.Proofs.Output.FanOut
import Montage.Proofs.Output.Roles
import Montage.Proofs.Text.Split

/-!
# Variants of an adaptive output

The delivery profiles of a group are read one after the other, and a variant gets
its number before the profiles behind it are read. A `Variant` is what is known
without that number: which arguments it keeps, and its filters and bitrates. So
the variants that take part can be determined first and numbered afterwards: a
profile that keeps nothing uses up no number, and the contributions that are left
have the numbers of their places (`active_numbered`).
-/

namespace Montage

/-- The option as it is, or with a stream specifier that ends in the number of a
variant. -/
inductive Numbered (index : Nat) (option : String) : String → Prop where
  | unchanged : Numbered index option option
  | ofKind (h : Text.endsWith ":v" option = true ∨ Text.endsWith ":a" option = true) :
      Numbered index option (option ++ ":" ++ toString index)
  | ofVideo (h : option ∈ videoOptions) : Numbered index option (option ++ ":v:" ++ toString index)

theorem numbered_adjustOption (index : Nat) (option : String) :
    Numbered index option (adjustOption option index) := by
  unfold adjustOption
  split
  · rename_i h
    exact Numbered.ofKind (by simpa using h)
  · split
    · rename_i h
      exact Numbered.ofVideo (by simpa using h)
    · exact Numbered.unchanged

theorem numbered_keep (index : Nat) (argument : String) :
    Numbered index argument ((Part.variant index).keep argument) := by
  unfold Part.keep
  split
  · exact Numbered.unchanged
  · rename_i h
    cases h
    split
    · exact numbered_adjustOption _ _
    · exact Numbered.unchanged

namespace Directive

/-- The arguments that a variant keeps of a directive, without its number. -/
def kept (dropCopy : Bool) : Directive → List String
  | filter .. | input _ | bitrate .. => []
  | codec option value =>
    if dropCopy && Text.contains "copy" value then []
    else [(Part.variant 0).codecOption option, value]
  | maxRate option value => [option, value]
  | other argument => [argument]

theorem numbered_options (dropCopy : Bool) (index : Nat) (d : Directive) :
    List.Forall₂ (Numbered index) (d.kept dropCopy) (d.options (.variant index) dropCopy) := by
  cases d with
  | filter kind option value => exact List.Forall₂.nil
  | input file => exact List.Forall₂.nil
  | bitrate kind option value => exact List.Forall₂.nil
  | codec option value =>
      show List.Forall₂ (Numbered index)
        (if dropCopy && Text.contains "copy" value then []
          else [(Part.variant 0).codecOption option, value])
        (if dropCopy && Text.contains "copy" value then []
          else [(Part.variant index).keep ((Part.variant index).codecOption option), value])
      split
      · exact List.Forall₂.nil
      · exact .cons (numbered_keep index _) (.cons .unchanged .nil)
  | maxRate option value => exact .cons (numbered_keep index _) (.cons .unchanged .nil)
  | other argument => exact .cons (numbered_keep index _) .nil

end Directive

structure Variant where
  profile : Profile
  directives : List Directive

namespace Variant

def kept (dropCopy : Bool) (v : Variant) : List String := v.directives.flatMap (Directive.kept dropCopy)

def options (dropCopy : Bool) (index : Nat) (v : Variant) : List String :=
  v.directives.flatMap (Directive.options (.variant index) dropCopy)

def filter (kind : StreamKind) (v : Variant) : Option String :=
  Directive.last? (Directive.filterOf? kind) v.directives

/-- The bitrate that the variant gives; the upper limit of the video stands in for a
bitrate of the video that is missing. -/
def bitrate (kind : StreamKind) (v : Variant) : Option String :=
  (Directive.last? (Directive.bitrateOf? kind) v.directives).or
    (if kind = .video then Directive.last? Directive.maxRateOf? v.directives else none)

def isActive (dropCopy : Bool) (v : Variant) : Bool := !(v.kept dropCopy).isEmpty

def contribution (dropCopy : Bool) (index : Nat) (v : Variant) : Contribution :=
  .ofDirectives (.variant index) dropCopy v.directives

variable {dropCopy : Bool} {index : Nat} {v : Variant}

theorem numbered_options (dropCopy : Bool) (index : Nat) (v : Variant) :
    List.Forall₂ (Numbered index) (v.kept dropCopy) (v.options dropCopy index) := by
  unfold kept options
  induction v.directives with
  | nil => exact List.Forall₂.nil
  | cons d ds ih =>
      rw [List.flatMap_cons, List.flatMap_cons]
      exact List.rel_append (d.numbered_options dropCopy index) ih

@[simp] theorem bitrate_contribution (kind : StreamKind) :
    (v.contribution dropCopy index).bitrate kind = v.bitrate kind := by
  show Directive.bitrate? kind v.directives = _
  unfold Directive.bitrate? bitrate
  cases Directive.last? (Directive.bitrateOf? kind) v.directives <;> cases kind <;> rfl

/-- Whether a variant takes part does not depend on its number. -/
@[simp] theorem isActive_contribution :
    (v.contribution dropCopy index).isActive = v.isActive dropCopy := by
  have hlength := (v.numbered_options dropCopy index).length_eq
  show (!(v.options dropCopy index).isEmpty) = !(v.kept dropCopy).isEmpty
  rw [Bool.eq_iff_iff]
  simp [← List.length_eq_zero_iff, hlength]

end Variant

namespace FanOut

/-- The directives of a delivery profile of a group: the words that name its own
output are left out, and the parameters that name outputs have no values. -/
def variantDirectives (params : Parameters) (p : Profile) : Except Error (List Directive) := do
  let words := (← Words.tokenize (← p.command)).filter fun word =>
    !Text.contains (Template.placeholder "out.name") word
  Directive.parse p.identifier true (Template.arguments (params.eraseMany outputKeys) words)

def variantArguments (params : Parameters) (words : List String) : List String :=
  Template.arguments (params.eraseMany outputKeys)
    (words.filter fun word => !Text.contains (Template.placeholder "out.name") word)

theorem variantArguments_append (params : Parameters) (words more : List String) :
    variantArguments params (words ++ more) =
      variantArguments params words ++ variantArguments params more := by
  rw [variantArguments, List.filter_append, Template.arguments_append]
  rfl

theorem variantDirectives_eq_ok_iff {params : Parameters} {p : Profile} {ds : List Directive} :
    variantDirectives params p = .ok ds ↔
      ∃ command words, p.command = .ok command ∧ Words.tokenize command = .ok words ∧
        Directive.parse p.identifier true (variantArguments params words) = .ok ds := by
  constructor
  · intro h
    obtain ⟨command, hcommand, h⟩ := bind_eq_ok_iff.1 h
    obtain ⟨words, hwords, h⟩ := bind_eq_ok_iff.1 h
    exact ⟨command, words, hcommand, hwords, h⟩
  · rintro ⟨command, words, hcommand, hwords, h⟩
    exact bind_eq_ok_iff.2 ⟨command, hcommand, bind_eq_ok_iff.2 ⟨words, hwords, h⟩⟩

def readVariants (params : Parameters) (profiles : List Profile) : Except Error (List Variant) :=
  profiles.mapM fun p => (variantDirectives params p).map (Variant.mk p)

theorem map_profile_of_readVariants {params : Parameters} {profiles : List Profile}
    {read : List Variant} (h : readVariants params profiles = .ok read) :
    read.map (·.profile) = profiles := by
  induction profiles generalizing read with
  | nil =>
      cases h
      rfl
  | cons p profiles ih =>
      rw [readVariants, List.mapM_cons] at h
      obtain ⟨v, hv, h⟩ := bind_eq_ok_iff.1 h
      obtain ⟨rest, hrest, h⟩ := bind_eq_ok_iff.1 h
      obtain ⟨directives, _, rfl⟩ := map_eq_ok_iff.1 hv
      cases h
      rw [List.map_cons, ih hrest]

theorem mem_readVariants {params : Parameters} {profiles : List Profile} {read : List Variant}
    (h : readVariants params profiles = .ok read) {v : Variant} (hv : v ∈ read) :
    v.profile ∈ profiles ∧ variantDirectives params v.profile = .ok v.directives := by
  induction profiles generalizing read with
  | nil =>
      cases h
      cases hv
  | cons p profiles ih =>
      rw [readVariants, List.mapM_cons] at h
      obtain ⟨first, hfirst, h⟩ := bind_eq_ok_iff.1 h
      obtain ⟨rest, hrest, h⟩ := bind_eq_ok_iff.1 h
      obtain ⟨directives, hdirectives, rfl⟩ := map_eq_ok_iff.1 hfirst
      obtain rfl := pure_eq_ok_iff.1 h
      rcases List.mem_cons.1 hv with rfl | hv
      · exact ⟨List.mem_cons_self, hdirectives⟩
      · obtain ⟨hprofile, hread⟩ := ih hrest hv
        exact ⟨List.mem_cons_of_mem _ hprofile, hread⟩

/-- The variants numbered from `index` on; one that keeps nothing uses up no number. -/
def numbered (dropCopy : Bool) : Nat → List Variant → List Contribution
  | _, [] => []
  | index, v :: vs =>
    v.contribution dropCopy index ::
      numbered dropCopy (if v.isActive dropCopy then index + 1 else index) vs

theorem variant_eq (params : Parameters) (dropCopy : Bool) (p : Profile) (index : Nat) :
    variant params dropCopy p index =
      (variantDirectives params p).map (Contribution.ofDirectives (.variant index) dropCopy) := by
  unfold variant variantDirectives
  cases p.command with
  | error e => rfl
  | ok command =>
      simp only [bind, Except.bind]
      cases Words.tokenize command with
      | error e => rfl
      | ok words => rfl

theorem variants_eq_ok {params : Parameters} {dropCopy : Bool} {index : Nat}
    {profiles : List Profile} {cs : List Contribution}
    (h : variants params dropCopy index profiles = .ok cs) :
    ∃ vs, readVariants params profiles = .ok vs ∧ cs = numbered dropCopy index vs := by
  induction profiles generalizing index cs with
  | nil =>
      cases h
      exact ⟨[], rfl, rfl⟩
  | cons p profiles ih =>
      obtain ⟨c, hc, h⟩ := bind_eq_ok_iff.1 h
      obtain ⟨rest, hrest, h⟩ := bind_eq_ok_iff.1 h
      cases h
      rw [variant_eq] at hc
      obtain ⟨directives, hdirectives, rfl⟩ := map_eq_ok_iff.1 hc
      obtain ⟨vs, hvs, rfl⟩ := ih hrest
      refine ⟨⟨p, directives⟩ :: vs, ?_, ?_⟩
      · rw [readVariants, List.mapM_cons, hdirectives]
        show (readVariants params profiles >>= _) = _
        rw [hvs]
        rfl
      · rw [numbered, ← Variant.isActive_contribution]
        rfl

theorem active_numbered (dropCopy : Bool) (index : Nat) (vs : List Variant) :
    active (numbered dropCopy index vs) =
      ((vs.filter (·.isActive dropCopy)).zipIdx index).map fun x =>
        x.1.contribution dropCopy x.2 := by
  induction vs generalizing index with
  | nil => rfl
  | cons v vs ih =>
      unfold active at ih ⊢
      rw [numbered, List.filter_cons, List.filter_cons, Variant.isActive_contribution]
      cases hactive : v.isActive dropCopy with
      | false => simpa using ih index
      | true => simpa using ih (index + 1)

end FanOut

end Montage
