import Montage.Proofs.Output.OwnOutput
import Montage.Proofs.Output.Variants

/-!
# Codecs of variants

The option for the codec of a kind of stream has three spellings, and a variant has one
option for it, with its number. The older spellings are rewritten by how they begin, and
everything that begins with `-codec:` becomes the option for video. So a codec stays where
it stands in the command and keeps its value, but `-codec:a` does not keep its kind.
-/

namespace Montage

namespace StreamKind

def codecSpellings : StreamKind → List String
  | video => ["-c:v", "-codec:v", "-vcodec"]
  | audio => ["-c:a", "-codec:a", "-acodec"]

def codecSpecifier (kind : StreamKind) (index : Nat) : String :=
  "-c:" ++ kind.letter.toString ++ ":" ++ toString index

theorem codecSpecifier_inj {kind kind' : StreamKind} {index : Nat} :
    kind.codecSpecifier index = kind'.codecSpecifier index ↔ kind = kind' := by
  refine ⟨fun h => ?_, fun h => by rw [h]⟩
  cases kind <;> cases kind' <;> simp [codecSpecifier, letter, ← String.toList_inj] at h ⊢

end StreamKind

section

variable {kind : StreamKind} {option : String}

theorem OptionRole.of_true_codecSpelling (h : option ∈ kind.codecSpellings) :
    OptionRole.of true option = codec := by
  revert option
  cases kind <;> decide

namespace Part

theorem codecOption_codecSpelling (h : option ∈ kind.codecSpellings) (index : Nat) :
    (variant index).codecOption option =
      "-c:" ++ (if option = "-codec:a" then StreamKind.video else kind).letter.toString := by
  show (variant 0).codecOption option = _
  revert option
  cases kind <;> decide

theorem keep_codecOption (kind : StreamKind) (index : Nat) :
    (variant index).keep ("-c:" ++ kind.letter.toString) = kind.codecSpecifier index := by
  have hoption : Text.startsWith "-" ("-c:" ++ kind.letter.toString) = true := by
    cases kind <;> decide
  have hkind : (Text.endsWith ":v" ("-c:" ++ kind.letter.toString) ||
      Text.endsWith ":a" ("-c:" ++ kind.letter.toString)) = true := by
    cases kind <;> decide
  rw [keep, if_pos hoption, adjustOption, if_pos hkind]
  rfl

end Part

namespace Directive

theorem exists_codec_of_isRead {d : Directive} (hread : d.IsRead true)
    (hoption : option ∈ d.arguments.head?) (h : option ∈ kind.codecSpellings) :
    ∃ value, d = codec option value := by
  have hrole := (hread option hoption).symm.trans (OptionRole.of_true_codecSpelling h)
  cases d <;> cases hrole
  cases hoption
  exact ⟨_, rfl⟩

/-- What a variant makes of a codec that is not dropped. -/
theorem options_codec {dropCopy : Bool} {value : String} (h : option ∈ kind.codecSpellings)
    (hleft : ¬ (dropCopy = true ∧ Text.contains "copy" value = true)) (index : Nat) :
    (codec option value).options (.variant index) dropCopy =
      [(if option = "-codec:a" then StreamKind.video else kind).codecSpecifier index, value] := by
  rw [options, if_neg (by simpa using hleft), Part.codecOption_codecSpelling h,
    Part.keep_codecOption]

end Directive

end

namespace FanOut

variable {params : Parameters} {dropCopy : Bool} {p : Profile} {index : Nat} {c : Contribution}

/-- The options of a variant have the codec for streams of the kind, behind what is left of
the directives in front of it and before what is left of those behind it. -/
def HasCodecBetween (dropCopy : Bool) (index : Nat) (front : List Directive) (kind : StreamKind)
    (value : String) (back : List Directive) (options : List String) : Prop :=
  options = front.flatMap (Directive.options (.variant index) dropCopy) ++
    [kind.codecSpecifier index, value] ++
      back.flatMap (Directive.options (.variant index) dropCopy)

theorem hasCodecBetween_iff {front back : List Directive} {kind kind' : StreamKind}
    {value : String} {options : List String}
    (h : HasCodecBetween dropCopy index front kind value back options) :
    HasCodecBetween dropCopy index front kind' value back options ↔ kind' = kind := by
  obtain rfl := h
  simp only [HasCodecBetween, List.append_assoc, List.append_cancel_left_eq,
    List.append_cancel_right_eq, List.cons.injEq, and_true, StreamKind.codecSpecifier_inj]
  exact eq_comm

/-- Each codec of a variant stays at its place with its value, for streams of one kind. It is
the kind that the option is spelled for, except for `-codec:a`. -/
theorem codecs_of_variant (h : variant params dropCopy p index = .ok c) :
    ∃ command words ds, p.command = .ok command ∧ Words.tokenize command = .ok words ∧
      variantDirectives params p = .ok ds ∧
      ds.flatMap Directive.arguments = variantArguments params words ∧
      (∀ d ∈ ds, d.IsRead true) ∧
      ∀ front d back, ds = front ++ d :: back →
        ∀ kind, ∀ option ∈ d.arguments.head?, option ∈ kind.codecSpellings →
          ∃ value, d.arguments = [option, value] ∧
            (¬ (dropCopy = true ∧ Text.contains "copy" value = true) →
              ∀ kind', HasCodecBetween dropCopy index front kind' value back c.options ↔
                kind' = if option = "-codec:a" then .video else kind) := by
  rw [variant_eq] at h
  obtain ⟨ds, hds, rfl⟩ := map_eq_ok_iff.1 h
  obtain ⟨command, words, hcommand, hwords, hparse⟩ := variantDirectives_eq_ok_iff.1 hds
  obtain ⟨harguments, hread⟩ := Directive.of_parse hparse
  refine ⟨command, words, ds, hcommand, hwords, hds, harguments, hread, ?_⟩
  rintro front d back rfl kind option hoption hspelled
  obtain ⟨value, rfl⟩ :=
    Directive.exists_codec_of_isRead (hread d (by simp)) hoption hspelled
  refine ⟨value, rfl, fun hleft kind' => hasCodecBetween_iff ?_⟩
  show (front ++ .codec option value :: back).flatMap _ = _
  rw [List.flatMap_append, List.flatMap_cons, Directive.options_codec hspelled hleft,
    List.append_assoc]

/-- Three spellings in variant 3, where codecs that copy are dropped. -/
theorem codecs_of_variant_three :
    let p : Profile :=
      { identifier := "low", name := "p", input := .audioVisual, output := .audioVisual
        extensions := Std.TreeMap.ofList
          [(Template.commandKey, "-acodec aac -codec:a mp3 -codec:v copy #\x7bout.name\x7d.mp4")] }
    ∃ c, variant ∅ true p 3 = .ok c ∧ c.options = ["-c:a:3", "aac", "-c:v:3", "mp3"] ∧
      HasCodecBetween true 3 [] .audio "aac" [.codec "-codec:a" "mp3", .codec "-codec:v" "copy"]
        c.options ∧
      ¬ HasCodecBetween true 3 [.codec "-acodec" "aac"] .audio "mp3" [.codec "-codec:v" "copy"]
        c.options := by
  intro p
  have hoptions : (variant ∅ true p 3).toOption.map (·.options) =
      some ["-c:a:3", "aac", "-c:v:3", "mp3"] := by decide +kernel
  have hdirectives : (variantDirectives ∅ p).toOption = some
      [.codec "-acodec" "aac", .codec "-codec:a" "mp3", .codec "-codec:v" "copy"] := by
    decide +kernel
  obtain ⟨c, h, hoptions⟩ := exists_of_map_toOption hoptions
  obtain ⟨_, _, ds, _, _, hds, _, _, hcodecs⟩ := codecs_of_variant h
  rw [hds] at hdirectives
  obtain rfl := Option.some.inj hdirectives
  refine ⟨c, h, hoptions, ?_, fun hkind => ?_⟩
  · obtain ⟨_, hvalue, hplaces⟩ := hcodecs [] _ _ rfl .audio "-acodec" rfl (by decide)
    cases hvalue
    exact (hplaces (by decide) .audio).2 rfl
  · obtain ⟨_, hvalue, hplaces⟩ :=
      hcodecs [.codec "-acodec" "aac"] _ _ rfl .audio "-codec:a" rfl (by decide)
    cases hvalue
    cases (hplaces (by decide) .audio).1 hkind

/-- The codec that `-codec:a` gives is not that of the sound: the variant has no option for
the codec of the sound at all, and two for that of the video. -/
theorem not_hasCodecBetween_audio :
    let p : Profile :=
      { identifier := "low", name := "p", input := .audioVisual, output := .audioVisual
        extensions := Std.TreeMap.ofList
          [(Template.commandKey, "-codec:a aac -codec:v libx264 #\x7bout.name\x7d.mp4")] }
    (variantDirectives ∅ p).toOption =
        some [.codec "-codec:a" "aac", .codec "-codec:v" "libx264"] ∧
      (variant ∅ false p 0).toOption.map (·.options) =
        some ["-c:v:0", "aac", "-c:v:0", "libx264"] ∧
      StreamKind.audio.codecSpecifier 0 ∉ ["-c:v:0", "aac", "-c:v:0", "libx264"] := by
  decide +kernel

end FanOut

end Montage
