import Mathlib.Data.List.Induction
import Montage.Proofs.Output.Reading

/-!
# What is kept of a command

The arguments of a profile divide in one way only into units: an option that takes the next
argument together with that one, and every other argument on its own (`Divided`). This says
no more than which options take the next argument, and nothing about how they are found.

Reading the arguments for an output of its own keeps the units or leaves them out, one by
one and in their order, and the filters come from the units that give filters. It fails
exactly if a unit is an option for a graph of its own, or if the last argument is an option
that has to have a value; the first such unit decides how (`fault?`).
-/

namespace Montage

def GivesFilter (kind : StreamKind) (option : String) : Prop :=
  match kind with
  | .video => Text.startsWith "-vf" option = true ∨ Text.startsWith "-filter:v" option = true
  | .audio => Text.startsWith "-af" option = true ∨ Text.startsWith "-filter:a" option = true

instance (kind : StreamKind) (option : String) : Decidable (GivesFilter kind option) :=
  match kind with
  | .video => inferInstanceAs (Decidable (_ ∨ _))
  | .audio => inferInstanceAs (Decidable (_ ∨ _))

def GivesCodec (option : String) : Prop :=
  Text.startsWith "-c:" option = true ∨ Text.startsWith "-codec:" option = true ∨
    Text.contains "-vcodec" option = true ∨ Text.contains "-acodec" option = true

instance (option : String) : Decidable (GivesCodec option) :=
  inferInstanceAs (Decidable (_ ∨ _ ∨ _ ∨ _))

/-- The argument behind the option belongs to it. -/
def TakesNext (option : String) : Prop :=
  ¬ IsNestedGraph option ∧ (GivesFilter .video option ∨ GivesFilter .audio option ∨
    option = "-i" ∨ GivesCodec option)

instance (option : String) : Decidable (TakesNext option) :=
  inferInstanceAs (Decidable (_ ∧ _))

/-- The arguments are divided into units, from the left. -/
inductive Divided : List String → List (List String) → Prop where
  | nil : Divided [] []
  | single {argument : String} {rest : List String} {units : List (List String)}
      (h : ¬ TakesNext argument) (hrest : Divided rest units) :
      Divided (argument :: rest) ([argument] :: units)
  | pair {option next : String} {rest : List String} {units : List (List String)}
      (h : TakesNext option) (hrest : Divided rest units) :
      Divided (option :: next :: rest) ([option, next] :: units)
  | last {option : String} (h : TakesNext option) : Divided [option] [[option]]

def fault? (profile : String) : List String → Option Error
  | [option] =>
    if IsNestedGraph option then some (.unsupportedGraph (.nestedGraph profile option))
    else if TakesNext option ∧ option ≠ "-i" then some (.template (.noValue option profile))
    else none
  | _ => none

/-- The unit stays among the options, where codecs that copy are dropped or where they are
not. -/
def IsKept (dropCopy : Bool) : List String → Prop
  | [argument] => argument ≠ "-i"
  | [option, next] => ¬ GivesFilter .video option ∧ ¬ GivesFilter .audio option ∧ option ≠ "-i" ∧
      ¬ (dropCopy = true ∧ GivesCodec option ∧ Text.contains "copy" next = true)
  | _ => True

instance (dropCopy : Bool) (unit : List String) : Decidable (IsKept dropCopy unit) :=
  match unit with
  | [] => inferInstanceAs (Decidable True)
  | [_] => inferInstanceAs (Decidable (_ ≠ _))
  | [_, _] => inferInstanceAs (Decidable (_ ∧ _ ∧ _ ∧ _))
  | _ :: _ :: _ :: _ => inferInstanceAs (Decidable True)

def filterIn? (kind : StreamKind) : List String → Option String
  | [option, value] => if GivesFilter kind option then some value else none
  | _ => none

def withoutQuotes (s : String) : String := String.ofList (s.toList.filter (· ≠ '"'))

theorem replaced_quote (s : String) : Text.replaced "\"" "" s = withoutQuotes s := by
  have hfilter (cs : List Char) : Text.replaceFrom '"' [] [] 0 cs = cs.filter (· ≠ '"') := by
    induction cs with
    | nil => rfl
    | cons c cs ih =>
      rw [Text.replaceFrom, List.length_nil, ih, List.filter_cons]
      by_cases hc : c = '"' <;> simp [hc, eq_comm (a := '"')]
  exact congrArg String.ofList (hfilter s.toList)

theorem GivesFilter.eq {kind kind' : StreamKind} {option : String} (h : GivesFilter kind option)
    (h' : GivesFilter kind' option) : kind = kind' := by
  have hapart {a b : String} (ha : Text.startsWith a option = true)
      (hb : Text.startsWith b option = true) : a.toList <+: b.toList ∨ b.toList <+: a.toList :=
    List.prefix_or_prefix_of_prefix (Text.startsWith_iff.1 ha) (Text.startsWith_iff.1 hb)
  cases kind <;> cases kind'
  · rfl
  · rcases h with h | h <;> rcases h' with h' | h' <;> exact absurd (hapart h h') (by decide)
  · rcases h with h | h <;> rcases h' with h' | h' <;> exact absurd (hapart h h') (by decide)
  · rfl

namespace OptionRole

variable {option : String}

theorem of_false_eq (option : String) : OptionRole.of false option =
    if IsNestedGraph option then nestedGraph
    else if GivesFilter .video option then filter .video
    else if GivesFilter .audio option then filter .audio
    else if option = "-i" then input
    else if GivesCodec option then codec
    else other := by
  simp only [OptionRole.of, Bool.not_false, if_true]
  refine ite_congr (by simp [IsNestedGraph]) (fun _ => rfl) fun _ => ?_
  refine ite_congr (by simp [GivesFilter]) (fun _ => rfl) fun _ => ?_
  refine ite_congr (by simp [GivesFilter]) (fun _ => rfl) fun _ => ?_
  refine ite_congr (by simp) (fun _ => rfl) fun _ => ?_
  exact ite_congr (by simp [GivesCodec, isCodecOption, or_assoc]) (fun _ => rfl) fun _ => rfl

theorem of_false_eq_filter_iff {kind : StreamKind} :
    OptionRole.of false option = filter kind ↔
      ¬ IsNestedGraph option ∧ GivesFilter kind option := by
  rw [of_false_eq]
  constructor
  · intro h
    split_ifs at h with hgraph hvideo haudio <;> cases h
    · exact ⟨hgraph, hvideo⟩
    · exact ⟨hgraph, haudio⟩
  · rintro ⟨hgraph, hfilter⟩
    rw [if_neg hgraph]
    cases kind with
    | video => rw [if_pos hfilter]
    | audio =>
      have hvideo : ¬ GivesFilter .video option := fun hvideo => nomatch hvideo.eq hfilter
      rw [if_neg hvideo, if_pos hfilter]

theorem of_false_eq_input_iff : OptionRole.of false option = input ↔ option = "-i" := by
  constructor
  · exact eq_of_of_eq_input
  · rintro rfl
    decide

theorem of_false_eq_codec_iff : OptionRole.of false option = codec ↔
    ¬ IsNestedGraph option ∧ ¬ GivesFilter .video option ∧ ¬ GivesFilter .audio option ∧
      option ≠ "-i" ∧ GivesCodec option := by
  rw [of_false_eq]
  split_ifs <;> simp_all

theorem of_false_eq_other_iff :
    OptionRole.of false option = other ↔ ¬ IsNestedGraph option ∧ ¬ TakesNext option := by
  rw [of_false_eq, TakesNext]
  split_ifs <;> simp_all

theorem takesNext_iff : TakesNext option ↔
    OptionRole.of false option ≠ nestedGraph ∧ OptionRole.of false option ≠ other := by
  rw [ne_eq, ne_eq, of_eq_nestedGraph_iff, of_false_eq_other_iff, not_and_not_right]
  exact ⟨fun h => ⟨h.1, fun _ => h⟩, fun h => h.2 h.1⟩

end OptionRole

namespace Divided

variable {arguments : List String} {units units' : List (List String)}

theorem exists_units (arguments : List String) : ∃ units, Divided arguments units := by
  induction arguments using List.twoStepInduction with
  | nil => exact ⟨[], nil⟩
  | singleton option =>
    by_cases h : TakesNext option
    · exact ⟨_, last h⟩
    · exact ⟨_, single h nil⟩
  | cons_cons option next rest ih ih' =>
    by_cases h : TakesNext option
    · obtain ⟨units, hunits⟩ := ih
      exact ⟨_, pair h hunits⟩
    · obtain ⟨units, hunits⟩ := ih' next
      exact ⟨_, single h hunits⟩

theorem unique (h : Divided arguments units) (h' : Divided arguments units') : units' = units := by
  induction h generalizing units' with
  | nil =>
    cases h'
    rfl
  | single hsingle _ ih =>
    cases h' with
    | single _ hrest => rw [ih hrest]
    | pair htakes _ => exact absurd htakes hsingle
    | last htakes => exact absurd htakes hsingle
  | pair htakes _ ih =>
    cases h' with
    | single hsingle _ => exact absurd htakes hsingle
    | pair _ hrest => rw [ih hrest]
  | last htakes =>
    cases h' with
    | single hsingle _ => exact absurd htakes hsingle
    | last _ => rfl

end Divided

namespace Directive

variable {profile : String} {arguments : List String} {units : List (List String)} {d : Directive}
  {ds : List Directive}

/-- Reading goes through the units and stops at the first one with a fault. -/
theorem parse_of_divided (h : Divided arguments units) :
    (parse profile false arguments).map (List.map Directive.arguments) =
      match units.findSome? (fault? profile) with
      | some e => .error e
      | none => .ok units := by
  -- a directive without a fault in front of what is read behind it
  have hcons {rest : List String} {units : List (List String)} (d : Directive)
      (hfault : fault? profile d.arguments = none)
      (hrest : (parse profile false rest).map (List.map Directive.arguments) =
        match units.findSome? (fault? profile) with
        | some e => .error e
        | none => .ok units) :
      ((parse profile false rest).map (d :: ·)).map (List.map Directive.arguments) =
        match (d.arguments :: units).findSome? (fault? profile) with
        | some e => .error e
        | none => .ok (d.arguments :: units) := by
    rw [List.findSome?_cons, hfault]
    cases hparse : parse profile false rest <;> cases hfaults : units.findSome? (fault? profile) <;>
      simp_all [Except.map]
  induction h with
  | nil => rfl
  | @single argument rest units hsingle _ ih =>
    by_cases hgraph : IsNestedGraph argument
    · rw [parse_cons_of_nestedGraph (OptionRole.of_eq_nestedGraph_iff.2 hgraph)]
      simp [fault?, hgraph, Except.map]
    · rw [parse_cons_of_other (OptionRole.of_false_eq_other_iff.2 ⟨hgraph, hsingle⟩)]
      exact hcons (other argument) (by simp [Directive.arguments, fault?, hgraph, hsingle]) ih
  | @pair option next rest units htakes _ ih =>
    obtain ⟨hgraph, hother⟩ := OptionRole.takesNext_iff.1 htakes
    obtain ⟨d, hd, hstep⟩ := @exists_parse_cons_cons profile _ _ hgraph hother next
    rw [hstep, ← hd]
    exact hcons d (by rw [hd]; rfl) ih
  | @last option htakes =>
    obtain ⟨hgraph, hother⟩ := OptionRole.takesNext_iff.1 htakes
    by_cases hinput : option = "-i"
    · rw [parse_singleton_of_input (OptionRole.of_false_eq_input_iff.2 hinput), hinput]
      rfl
    · rw [parse_singleton hgraph hother (mt OptionRole.of_false_eq_input_iff.1 hinput)]
      simp [fault?, htakes, htakes.1, hinput, Except.map]

theorem survives_iff (hread : d.IsRead false) (dropCopy : Bool) :
    d.survives dropCopy = true ↔ IsKept dropCopy d.arguments := by
  cases d with
  | filter kind option value =>
    have hfilter := (OptionRole.of_false_eq_filter_iff.1 (hread option rfl)).2
    cases kind <;> simp [survives, Directive.arguments, IsKept, hfilter]
  | input file =>
    cases file <;> simp [survives, Directive.arguments, IsKept]
  | codec option value =>
    obtain ⟨_, hvideo, haudio, hinput, hcodec⟩ :=
      OptionRole.of_false_eq_codec_iff.1 (hread option rfl)
    simp [survives, Directive.arguments, IsKept, hvideo, haudio, hinput, hcodec, imp_iff_not_or]
  | bitrate kind option value =>
    exact absurd (hread option rfl) ((OptionRole.of_false_cases option).2 kind)
  | maxRate option value => exact absurd (hread option rfl) (OptionRole.of_false_cases option).1
  | other argument =>
    have hinput : argument ≠ "-i" := by
      rintro rfl
      cases hread "-i" rfl
    simp [survives, Directive.arguments, IsKept, hinput]

theorem filterOf?_eq (hread : d.IsRead false) (kind : StreamKind) :
    filterOf? kind d = (filterIn? kind d.arguments).map withoutQuotes := by
  cases d with
  | filter kind' option value =>
    have hfilter := (OptionRole.of_false_eq_filter_iff.1 (hread option rfl)).2
    by_cases hkind : kind' = kind
    · subst hkind
      simp [filterOf?, Directive.arguments, filterIn?, hfilter, replaced_quote]
    · have hnone : ¬ GivesFilter kind option := fun h => hkind (hfilter.eq h)
      simp [filterOf?, Directive.arguments, filterIn?, hkind, hnone]
  | input file =>
    have hnone : ¬ GivesFilter kind "-i" := by cases kind <;> decide
    cases file <;> simp [filterOf?, Directive.arguments, filterIn?, hnone]
  | codec option value =>
    obtain ⟨_, hvideo, haudio, _⟩ := OptionRole.of_false_eq_codec_iff.1 (hread option rfl)
    cases kind <;> simp [filterOf?, Directive.arguments, filterIn?, hvideo, haudio]
  | bitrate kind option value =>
    exact absurd (hread option rfl) ((OptionRole.of_false_cases option).2 kind)
  | maxRate option value => exact absurd (hread option rfl) (OptionRole.of_false_cases option).1
  | other argument => rfl

end Directive

namespace Contribution

variable {profile : String} {dropCopy : Bool} {arguments : List String}

theorem ofArguments_of_units {ds : List Directive}
    (h : Directive.parse profile false arguments = .ok ds) :
    (ofDirectives .own dropCopy ds).options =
        ((ds.map Directive.arguments).filter fun unit => decide (IsKept dropCopy unit)).flatten ∧
      ∀ kind, (ofDirectives .own dropCopy ds).filter kind =
        ((ds.map Directive.arguments).filterMap (filterIn? kind)).getLast?.map withoutQuotes := by
  have hread := (Directive.of_parse h).2
  constructor
  · have hkept : ds.filter (Directive.survives dropCopy) =
        ds.filter fun d => decide (IsKept dropCopy d.arguments) := by
      refine List.filter_congr fun d hd => ?_
      rw [Bool.eq_iff_iff, Directive.survives_iff (hread d hd), decide_eq_true_iff]
    calc ds.flatMap (Directive.options .own dropCopy)
        = (ds.filter (Directive.survives dropCopy)).flatMap Directive.arguments :=
          Directive.flatMap_options_own dropCopy ds
      _ = _ := by
        rw [hkept, List.filter_map, ← List.flatMap_def]
        rfl
  · intro kind
    have hfilters : ds.filterMap (Directive.filterOf? kind) =
        ds.filterMap fun d => (filterIn? kind d.arguments).map withoutQuotes :=
      List.filterMap_congr fun d hd => Directive.filterOf?_eq (hread d hd) kind
    calc (ds.filterMap (Directive.filterOf? kind)).getLast?
        = ((ds.filterMap fun d => filterIn? kind d.arguments).map withoutQuotes).getLast? := by
          rw [hfilters, List.map_filterMap]
      _ = _ := by
        rw [List.getLast?_map, List.filterMap_map]
        rfl

/-- The arguments divide in one way, the first fault of a unit is the error that is reported,
and without a fault the units are kept or left out one by one. -/
theorem ofArguments_own (profile : String) (dropCopy : Bool) (arguments : List String) :
    ∃ units, (∀ units', Divided arguments units' ↔ units' = units) ∧
      (∀ e, ofArguments profile .own dropCopy arguments = .error e ↔
        units.findSome? (fault? profile) = some e) ∧
      ∀ c, ofArguments profile .own dropCopy arguments = .ok c →
        c.options = (units.filter fun unit => decide (IsKept dropCopy unit)).flatten ∧
        ∀ kind, c.filter kind =
          (units.filterMap (filterIn? kind)).getLast?.map withoutQuotes := by
  obtain ⟨units, hunits⟩ := Divided.exists_units arguments
  have hparse := @Directive.parse_of_divided profile _ _ hunits
  refine ⟨units, fun units' => ⟨hunits.unique, fun h => h ▸ hunits⟩, ?_⟩
  rw [ofArguments, Part.isVariant]
  cases hread : Directive.parse profile false arguments with
  | error e =>
    cases hfault : units.findSome? (fault? profile) <;> simp_all [Except.map]
  | ok ds =>
    rw [hread] at hparse
    cases hfault : units.findSome? (fault? profile) with
    | some e => simp [hfault, Except.map] at hparse
    | none =>
      obtain rfl : ds.map Directive.arguments = units := by
        simpa [hfault, Except.map] using hparse
      refine ⟨fun e => by simp [Except.map], fun c hc => ?_⟩
      cases hc
      exact ofArguments_of_units hread

example : (ofArguments "web" .own true
    ["-vf", "\"scale=2:2\"", "-acodec", "copy", "-i", "in.mp4", "-vf"]).toOption.isNone ∧
    ((ofArguments "web" .own true
      ["-vf", "\"scale=2:2\"", "-acodec", "copy", "-i", "in.mp4", "out.mp4"]).toOption.map
        fun c => (c.filter .video, c.options)) = some (some "scale=2:2", ["out.mp4"]) := by decide

end Contribution

end Montage
