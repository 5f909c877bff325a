import Montage.Proofs.Engine.Parameters
import Montage.Proofs.Template.Values

/-!
# Values do not make arguments

The words of a command line are there before any value is. So if the parameters are values
and no fragments, and all placeholders are filled, then every argument comes of a word of the
line as it is written (`exists_words_of_compile`). Two such compilations fail alike or make
commands of the same words, and these differ where the values of a word differ and nowhere
else (`compile_of_areValues`).
-/

namespace Montage

open Template

/-- There are no fragments among the parameters, and a space is a space. -/
structure AreValues (params : Parameters) : Prop where
  fragment : ∀ name, params[fragmentKey name]? = none
  space : params[spaceKey]? = none

theorem areValues_empty : AreValues ∅ :=
  ⟨fun _ => Std.TreeMap.getElem?_emptyc, Std.TreeMap.getElem?_emptyc⟩

theorem AreValues.insert {params : Parameters} (h : AreValues params) {key : String}
    (hkey : ¬ (fragmentKey "").toList <+: key.toList) (hspace : key ≠ spaceKey) (value : String) :
    AreValues (params.insert key value) where
  fragment name := by
    rw [(SameFragments.refl params).insert hkey value name, h.fragment name]
  space := by
    rw [Std.TreeMap.getElem?_insert, if_neg (by rwa [Std.LawfulEqCmp.compare_eq_iff_eq]), h.space]

theorem AreValues.of_extends {properties params : Parameters} (h : AreValues properties)
    (hextends : Extends properties params) : AreValues params where
  fragment name := by rw [hextends.sameFragments name, h.fragment name]
  space := by rw [hextends spaceKey (by simp [IsFactKey, spaceKey]), h.space]

namespace Profile

def writtenWords? (p : Profile) : Option (List String) := p.command?.bind Words.ofLine?

theorem toOption_words (p : Profile) {params : Parameters} (h : AreValues params) :
    (p.words params).toOption = p.writtenWords? := by
  have hempty : SameFragments ∅ params := by
    intro name
    rw [h.fragment name, Std.TreeMap.getElem?_emptyc]
  rw [p.words_congr hempty]
  unfold words writtenWords? command
  cases p.command? with
  | none => rfl
  | some line =>
    -- without fragments nothing is put in
    have hline : expand ∅ line = line := rfl
    dsimp only [bind, Except.bind, Option.bind_some]
    rw [hline]
    cases Words.ofLine? line with
    | none => rfl
    | some words => rfl

end Profile

/-- Two commands that are made of the same words, each with values of its own. -/
structure AreMadeOf (words : List String) (params params' : Parameters)
    (command command' : Command) : Prop where
  arguments : command.arguments =
    ["-nostdin", "-nostats"] ++ (words.filter isKept).map (substitute params)
  arguments' : command'.arguments =
    ["-nostdin", "-nostats"] ++ (words.filter isKept).map (substitute params')

namespace AreMadeOf

variable {words : List String} {params params' : Parameters} {command command' : Command}

theorem length_eq (h : AreMadeOf words params params' command command') :
    command.arguments.length = command'.arguments.length := by
  rw [h.arguments, h.arguments']
  simp only [List.length_append, List.length_map]

/-- Arguments that differ come of one word, and they show different values. -/
theorem exists_of_ne (h : AreMadeOf words params params' command command') {n : Nat}
    (hne : command.arguments[n]? ≠ command'.arguments[n]?) :
    ∃ k word, n = k + 2 ∧ (words.filter isKept)[k]? = some word ∧
      ∃ key ∈ keys word, params[key]? ≠ params'[key]? := by
  rw [h.arguments, h.arguments'] at hne
  by_cases hn : n < 2
  · -- the options in front
    rw [List.getElem?_append_left hn, List.getElem?_append_left hn] at hne
    exact absurd rfl hne
  · obtain ⟨k, rfl⟩ := Nat.exists_eq_add_of_le' (Nat.le_of_not_lt hn)
    rw [List.getElem?_append_right (Nat.le_add_left 2 k),
      List.getElem?_append_right (Nat.le_add_left 2 k), List.getElem?_map, List.getElem?_map] at hne
    change Option.map _ (words.filter isKept)[k]? ≠ Option.map _ (words.filter isKept)[k]? at hne
    cases hword : (words.filter isKept)[k]? with
    | none =>
      rw [hword] at hne
      exact absurd rfl hne
    | some word =>
      rw [hword, Option.map_some, Option.map_some, ne_eq, Option.some_inj] at hne
      refine ⟨k, word, rfl, hword, ?_⟩
      by_contra hnone
      apply hne
      apply substitute_congr
      intro key hkey
      by_contra hvalue
      exact hnone ⟨key, hkey, hvalue⟩

end AreMadeOf

section

variable {site : Site} {id : String} {sources : List Source} {p : Profile}
  {properties properties' : Parameters}

theorem of_compile_eq_error (hvalues : AreValues properties) {e : Error}
    (h : compile site id sources p properties = .error e) :
    (∃ e, parametersFor site id sources p properties = .error e) ∨ p.writtenWords? = none := by
  cases hparams : parametersFor site id sources p properties with
  | error e' => exact .inl ⟨e', rfl⟩
  | ok params =>
    right
    rw [compile_eq hparams] at h
    rw [← p.toOption_words (hvalues.of_extends (extends_of_parametersFor hparams))]
    cases hline : p.words params with
    | error e' => rfl
    | ok words =>
      rw [hline] at h
      cases h

/-- Every argument comes of a word that has a value or text of its own. -/
theorem exists_words_of_compile (hvalues : AreValues properties)
    (hfilled : ∀ words ∈ p.writtenWords?,
      ∀ params ∈ (parametersFor site id sources p properties).toOption, AreFilled params words)
    {command : Command} (h : compile site id sources p properties = .ok command) :
    ∃ words params, p.writtenWords? = some words ∧
      parametersFor site id sources p properties = .ok params ∧
      command.arguments =
        ["-nostdin", "-nostats"] ++ (words.filter isKept).map (substitute params) := by
  obtain ⟨params, words, hparams, hline⟩ := exists_of_compile_eq_ok h
  have hshown := hvalues.of_extends (extends_of_parametersFor hparams)
  have hwords : p.writtenWords? = some words := by
    rw [← p.toOption_words hshown, hline]
    rfl
  refine ⟨words, params, hwords, hparams, ?_⟩
  rw [compile_eq hparams, hline] at h
  rw [← arguments_eq_map hshown.space (hfilled words hwords params (mem_toOption_iff.2 hparams)),
    ← Except.ok.inj h]
  rfl

/-- What the values are is seen in the arguments that show them, and nowhere else: it decides
neither whether there is a command nor how many arguments it has. There is none if the sources
cannot be described or the line cannot be split into words. -/
theorem compile_of_areValues (site : Site) (id : String) (sources : List Source) (p : Profile)
    (hvalues : AreValues properties) (hvalues' : AreValues properties')
    (hfilled : ∀ words ∈ p.writtenWords?,
      ∀ params ∈ (parametersFor site id sources p properties).toOption, AreFilled params words)
    (hfilled' : ∀ words ∈ p.writtenWords?,
      ∀ params ∈ (parametersFor site id sources p properties').toOption, AreFilled params words) :
    ((∃ e, compile site id sources p properties = .error e ∧
        compile site id sources p properties' = .error e) ∧
      ((∃ e, parametersFor site id sources p properties = .error e) ∨ p.writtenWords? = none)) ∨
    ∃ words params params' command command', p.writtenWords? = some words ∧
      parametersFor site id sources p properties = .ok params ∧
      parametersFor site id sources p properties' = .ok params' ∧
      compile site id sources p properties = .ok command ∧
      compile site id sources p properties' = .ok command' ∧
      AreMadeOf words params params' command command' ∧
      command.arguments.length = command'.arguments.length ∧
      ∀ n, command.arguments[n]? ≠ command'.arguments[n]? →
        ∃ k word, n = k + 2 ∧ (words.filter isKept)[k]? = some word ∧
          ∃ key ∈ keys word, params[key]? ≠ params'[key]? := by
  have hsame : SameFragments properties properties' := by
    intro name
    rw [hvalues.fragment name, hvalues'.fragment name]
  cases hcompile : compile site id sources p properties with
  | error e =>
    left
    exact ⟨⟨e, rfl, compile_eq_error hsame hcompile id⟩, of_compile_eq_error hvalues hcompile⟩
  | ok command =>
    right
    cases hcompile' : compile site id sources p properties' with
    | error e =>
      have hfailed := compile_eq_error hsame.symm hcompile' id
      rw [hcompile] at hfailed
      cases hfailed
    | ok command' =>
      obtain ⟨words, params, hwords, hparams, harguments⟩ :=
        exists_words_of_compile hvalues hfilled hcompile
      obtain ⟨_, params', hwords', hparams', harguments'⟩ :=
        exists_words_of_compile hvalues' hfilled' hcompile'
      obtain rfl := Option.some.inj (hwords.symm.trans hwords')
      have hmade : AreMadeOf words params params' command command' := ⟨harguments, harguments'⟩
      exact ⟨words, params, params', command, command', hwords, hparams, hparams', rfl, rfl,
        hmade, hmade.length_eq, fun n hne => hmade.exists_of_ne hne⟩

/-- Blanks, quotes, an option and a placeholder in a value stay in the argument. -/
theorem compile_of_areValues_title :
    let p : Profile :=
      { identifier := "titled", name := "t", input := .audioVisual, output := .audioVisual
        suffix := some "-#\x7bending\x7d.mp4"
        extensions := Std.TreeMap.ofList [(commandKey, "-i #\x7bin.video.path\x7d -metadata "
          ++ "title=#\x7btitle\x7d #\x7bspace\x7d #\x7bout.name\x7d#\x7bout.suffix\x7d")] }
    let made (title ending : String) : Except Error Command :=
      Montage.compile ⟨{}, ⟨"/work"⟩⟩ "id" [⟨"video", ⟨"/in/talk.mp4"⟩⟩] p
        ((∅ : Parameters).insert "title" title |>.insert "ending" ending)
    let title := "-y \"a b' \\ #\x7bout.name\x7d"
    let ending := "#\x7btitle\x7d \""
    ∃ command command', made "Talk" "hd" = .ok command ∧ made title ending = .ok command' ∧
      command.arguments.length = command'.arguments.length ∧
      command'.arguments[5]? = some ("title=" ++ title) := by
  intro p made title ending
  have hfifth : (made title ending).toOption.bind (·.arguments[5]?) =
      some ("title=" ++ title) := by decide +kernel
  have hvalues (title ending : String) :
      AreValues ((∅ : Parameters).insert "title" title |>.insert "ending" ending) :=
    (areValues_empty.insert (by decide) (by decide) title).insert (by decide) (by decide) ending
  rcases compile_of_areValues ⟨{}, ⟨"/work"⟩⟩ "id" [⟨"video", ⟨"/in/talk.mp4"⟩⟩] p
      (hvalues "Talk" "hd") (hvalues title ending) (by decide +kernel) (by decide +kernel) with
    ⟨⟨e, _, hfailed⟩, _⟩ | ⟨_, _, _, command, command', _, _, _, hmade, hmade', _, hlength, _⟩
  · rw [show made title _ = _ from hfailed] at hfifth
    cases hfifth
  · refine ⟨command, command', hmade, hmade', hlength, ?_⟩
    rw [show made title _ = _ from hmade'] at hfifth
    exact hfifth

end

end Montage
