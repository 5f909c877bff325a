import Montage.Engine.Compile
import Montage.Proofs.Outcome
import Montage.Proofs.Template

/-!
# The parameters of a command

What a compilation adds to the parameters that it is given are facts about the sources and
about the output, each under a key of its own, and all else stays (`Extends`). Whether that
fails is seen from the sources alone (`parametersFor_cases`). The words of the command line
depend on the fragments and on nothing else among the parameters, so compilations with the
same fragments fail alike (`compile_eq_error`).
-/

namespace Montage

open Template

/-- The key of a fact about a source or about the output. -/
def IsFactKey (key : String) : Prop :=
  "in.".toList <+: key.toList ∨ "out.".toList <+: key.toList

def Extends (params params' : Parameters) : Prop :=
  ∀ key, ¬ IsFactKey key → params'[key]? = params[key]?

def SameFragments (params params' : Parameters) : Prop :=
  ∀ name, params'[fragmentKey name]? = params[fragmentKey name]?

section

variable {params params' : Parameters}

theorem Extends.refl (params : Parameters) : Extends params params := fun _ _ => rfl

theorem Extends.trans {params'' : Parameters} (h : Extends params params')
    (h' : Extends params' params'') : Extends params params'' :=
  fun key hkey => (h' key hkey).trans (h key hkey)

theorem Extends.insert (h : Extends params params') {key : String} (hkey : IsFactKey key)
    (value : String) : Extends params (params'.insert key value) := by
  intro other hother
  have hne : compare key other ≠ .eq := by
    rw [ne_eq, Std.LawfulEqCmp.compare_eq_iff_eq]
    rintro rfl
    exact hother hkey
  rw [Std.TreeMap.getElem?_insert, if_neg hne, h other hother]

theorem Extends.insertMany (h : Extends params params') {facts : List (String × String)}
    (hfacts : ∀ f ∈ facts, IsFactKey f.1) : Extends params (params'.insertMany facts) := by
  induction facts generalizing params' with
  | nil =>
    rw [Std.TreeMap.insertMany_nil]
    exact h
  | cons f facts ih =>
    rw [List.forall_mem_cons] at hfacts
    rw [Std.TreeMap.insertMany_cons]
    exact ih (h.insert hfacts.1 f.2) hfacts.2

theorem Extends.foldl {α : Type} {f : Parameters → α → Parameters}
    (hf : ∀ params a, Extends params (f params a)) (h : Extends params params') (l : List α) :
    Extends params (l.foldl f params') := by
  induction l generalizing params' with
  | nil => exact h
  | cons a l ih => exact ih (h.trans (hf params' a))

theorem Extends.withSuffixes (h : Extends params params') (p : Profile) :
    Extends params (p.withSuffixes params') := by
  unfold Profile.withSuffixes
  refine Extends.foldl ?_ ?_ _
  · rintro params ⟨tag, suffix⟩
    exact (Extends.refl params).insert (.inr (by simp)) _
  · split
    · exact h.insert (.inr (by decide)) _
    · exact h

theorem Extends.sameFragments (h : Extends params params') : SameFragments params params' := by
  intro name
  apply h
  rintro (hin | hout)
  · simp [fragmentKey, commandKey] at hin
  · simp [fragmentKey, commandKey] at hout

theorem SameFragments.refl (params : Parameters) : SameFragments params params := fun _ => rfl

theorem SameFragments.insert (h : SameFragments params params') {key : String}
    (hkey : ¬ (fragmentKey "").toList <+: key.toList) (value : String) :
    SameFragments params (params'.insert key value) := by
  intro name
  have hne : compare key (fragmentKey name) ≠ .eq := by
    rw [ne_eq, Std.LawfulEqCmp.compare_eq_iff_eq]
    rintro rfl
    exact hkey (by simp [fragmentKey])
  rw [Std.TreeMap.getElem?_insert, if_neg hne, h name]

theorem SameFragments.trans {params'' : Parameters} (h : SameFragments params params')
    (h' : SameFragments params' params'') : SameFragments params params'' :=
  fun name => (h' name).trans (h name)

theorem SameFragments.symm (h : SameFragments params params') : SameFragments params' params :=
  fun name => (h name).symm

end

theorem describe_cases (cwd : Path) (role : String) (path : Path) :
    (∃ e, ∀ params, MediaFile.describe cwd role path params = .error e) ∨
      ∀ params, ∃ params', MediaFile.describe cwd role path params = .ok params' ∧
        Extends params params' := by
  unfold MediaFile.describe
  cases MediaFile.absolute cwd path with
  | error e => exact .inl ⟨e, fun _ => rfl⟩
  | ok absolute =>
    refine .inr fun params => ⟨_, rfl, (Extends.refl params).insertMany ?_⟩
    simp [MediaFile.facts, IsFactKey]

theorem describeAll_cases (cwd : Path) (sources : List Source) :
    (∃ e, ∀ params, Source.describeAll cwd sources params = .error e) ∨
      ∀ params, ∃ params', Source.describeAll cwd sources params = .ok params' ∧
        Extends params params' := by
  unfold Source.describeAll
  induction sources with
  | nil => exact .inr fun params => ⟨params, rfl, Extends.refl params⟩
  | cons s sources ih =>
    simp only [List.foldlM_cons]
    rcases describe_cases cwd s.role s.path with ⟨e, hfirst⟩ | hfirst
    · refine .inl ⟨e, fun params => ?_⟩
      rw [hfirst]
      rfl
    · rcases ih with ⟨e, hrest⟩ | hrest
      · refine .inl ⟨e, fun params => ?_⟩
        obtain ⟨params', hparams', _⟩ := hfirst params
        rw [hparams']
        exact hrest params'
      · refine .inr fun params => ?_
        obtain ⟨params', hparams', hextends⟩ := hfirst params
        obtain ⟨params'', hparams'', hextends'⟩ := hrest params'
        refine ⟨params'', ?_, hextends.trans hextends'⟩
        rw [hparams']
        exact hparams''

/-- There are parameters for the sources or not, whatever the properties are and whatever makes
the name of the output unique. -/
theorem parametersFor_cases (site : Site) (sources : List Source) (p : Profile) :
    (∃ e, ∀ id properties, parametersFor site id sources p properties = .error e) ∨
      ∀ id properties, ∃ params, parametersFor site id sources p properties = .ok params ∧
        Extends properties params := by
  unfold parametersFor
  cases Source.primary? sources with
  | none => exact .inl ⟨_, fun _ _ => rfl⟩
  | some primary =>
    dsimp only
    rcases describeAll_cases site.cwd sources with ⟨e, hall⟩ | hall
    · refine .inl ⟨e, fun id properties => ?_⟩
      rw [hall]
      rfl
    · cases site.outputDirectory primary.path with
      | error e =>
        refine .inl ⟨e, fun id properties => ?_⟩
        obtain ⟨described, hdescribed, _⟩ := hall properties
        rw [hdescribed]
        rfl
      | ok directory =>
        refine .inr fun id properties => ?_
        obtain ⟨described, hdescribed, hextends⟩ := hall properties
        rw [hdescribed]
        exact ⟨_, rfl, ((hextends.insert (.inr (by decide)) _).insert (.inr (by decide))
          _).withSuffixes p⟩

section

variable {site : Site} {id : String} {sources : List Source} {p : Profile}
  {properties params : Parameters}

theorem extends_of_parametersFor (h : parametersFor site id sources p properties = .ok params) :
    Extends properties params := by
  rcases parametersFor_cases site sources p with ⟨e, hfailed⟩ | hmade
  · rw [hfailed] at h
    cases h
  · obtain ⟨params', hparams, hextends⟩ := hmade id properties
    obtain rfl := Except.ok.inj (h.symm.trans hparams)
    exact hextends

end

theorem Profile.words_congr (p : Profile) {params params' : Parameters}
    (h : SameFragments params params') : p.words params' = p.words params := by
  unfold Profile.words
  cases p.command with
  | error e => rfl
  | ok line =>
    dsimp only [bind, Except.bind]
    rw [expand_congr h]

variable {site : Site} {id : String} {sources : List Source} {p : Profile}
  {properties properties' params : Parameters}

/-- With parameters it is the words that make the command, or fail. -/
theorem compile_eq (h : parametersFor site id sources p properties = .ok params) :
    compile site id sources p properties = (p.words params).map fun words =>
      ((({ program := site.settings.encoder : Command }.append ["-nostdin", "-nostats"]).append
        (arguments params words)).expect p.identifier (targetOf? (arguments params words))) := by
  unfold compile
  rw [h]
  show p.arguments params >>= _ = _
  rw [Profile.arguments]
  cases p.words params with
  | error e => rfl
  | ok words => rfl

theorem exists_of_compile_eq_ok {command : Command}
    (h : compile site id sources p properties = .ok command) :
    ∃ params words, parametersFor site id sources p properties = .ok params ∧
      p.words params = .ok words := by
  obtain ⟨params, hparams, h⟩ := bind_eq_ok_iff.1 h
  obtain ⟨arguments, harguments, _⟩ := bind_eq_ok_iff.1 h
  obtain ⟨words, hwords, _⟩ := map_eq_ok_iff.1 harguments
  exact ⟨params, words, hparams, hwords⟩

theorem compile_eq_error (hsame : SameFragments properties properties') {e : Error}
    (h : compile site id sources p properties = .error e) (id' : String) :
    compile site id' sources p properties' = .error e := by
  rcases parametersFor_cases site sources p with ⟨e', hfailed⟩ | hmade
  · unfold compile at h ⊢
    rw [hfailed] at h ⊢
    exact h
  · obtain ⟨params, hparams, hextends⟩ := hmade id properties
    obtain ⟨params', hparams', hextends'⟩ := hmade id' properties'
    have hwords : p.words params' = p.words params :=
      p.words_congr ((hextends.sameFragments.symm.trans hsame).trans hextends'.sameFragments)
    rw [compile_eq hparams] at h
    rw [compile_eq hparams', hwords]
    cases hline : p.words params with
    | error e' =>
      rw [hline] at h
      cases h
      rfl
    | ok words =>
      rw [hline] at h
      cases h

end Montage
