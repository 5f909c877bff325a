import Montage.Proofs.Encoder.Collection
import Montage.Proofs.LastName
import Montage.Proofs.Text.Search

/-!
# Opening lines are read up to an apostrophe

An adaptive output tells of each file when it is opened, between quotes and perhaps with `.tmp`
behind the name. The name is read up to the next quote. So a file is recorded under its name
exactly if there is no apostrophe in it, and a file with an apostrophe in its name never is
(`recorded_openingLine_iff`).
-/

namespace Montage.Encoder

def openingLine (address target : String) : String :=
  "[hls @ " ++ address ++ "] Opening '" ++ target ++ "' for writing"

variable {address target ending : String} {files : List Path} {file : Path}

theorem withoutTmp_append {file : List Char} (h : file ≠ []) :
    withoutTmp (file ++ ".tmp".toList) = file := by
  obtain ⟨c, cs, rfl⟩ := List.exists_cons_of_ne_nil h
  have hending : ".tmp".toList.isSuffixOf? (c :: cs ++ ".tmp".toList) = some (c :: cs) :=
    List.isSuffixOf?_eq_some_iff_append_eq.2 rfl
  rw [withoutTmp, hending]

theorem withoutTmp_of_not_suffix {file : List Char} (h : ¬ ".tmp".toList <:+ file) :
    withoutTmp file = file := by
  unfold withoutTmp
  split
  · rename_i c cs hending
    exact absurd ⟨c :: cs, List.isSuffixOf?_eq_some_iff_append_eq.1 hending⟩ h
  · rfl

theorem mem_of_mem_withoutTmp {file : List Char} {c : Char} (h : c ∈ withoutTmp file) :
    c ∈ file := by
  unfold withoutTmp at h
  split at h
  · rename_i hending
    rw [← List.isSuffixOf?_eq_some_iff_append_eq.1 hending]
    exact List.mem_append_left _ h
  · exact h

theorem not_mem_of_openedIn? {cs file : List Char} (h : openedIn? cs = some file) : '\'' ∉ file := by
  induction cs with
  | nil => cases h
  | cons c cs ih =>
    rw [openedIn?] at h
    split at h
    · rename_i found hfound
      obtain rfl := Option.some.inj h
      obtain ⟨rest, -, hread⟩ := Option.bind_eq_some_iff.1 hfound
      unfold openedAfterQuote? at hread
      split at hread
      · rename_i d more behind hsplit
        split_ifs at hread
        obtain rfl := Option.some.inj hread
        obtain ⟨hquote, -⟩ := Text.splitFirst?_eq_some hsplit
        intro hmem
        simpa using hquote _ (mem_of_mem_withoutTmp hmem)
      · cases hread
    · exact ih h

theorem openedIn?_cons {c : Char} {cs : List Char} (h : ¬ "Opening '".toList <+: c :: cs) :
    openedIn? (c :: cs) = openedIn? cs := by
  rw [openedIn?, Text.isPrefixOf?_eq_none_iff.2 h]
  rfl

/-- No file is opened in front of the mark. -/
theorem openedIn?_append {a : List Char} (h : ¬ "Opening '".toList <:+: a) {c : Char}
    (hc : c ∉ "Opening '".toList) (b : List Char) : openedIn? (a ++ c :: b) = openedIn? b := by
  induction a with
  | nil =>
    apply openedIn?_cons
    rw [← List.nil_append (c :: b), Text.prefix_append_cons_iff hc]
    decide
  | cons d a ih =>
    rw [List.infix_cons_iff, not_or] at h
    have hstart : ¬ "Opening '".toList <+: d :: (a ++ c :: b) :=
      mt (Text.prefix_append_cons_iff (a := d :: a) hc).1 h.1
    rw [List.cons_append, openedIn?_cons hstart, ih h.2]

theorem openedIn?_opening {rest file : List Char} (h : openedAfterQuote? rest = some file) :
    openedIn? ("Opening '".toList ++ rest) = some file := by
  have hstart : "Opening '".toList.isPrefixOf? ("Opening '".toList ++ rest) = some rest :=
    List.isPrefixOf?_eq_some_iff_append_eq.2 rfl
  obtain ⟨c, cs, hcons⟩ : ∃ c cs, "Opening '".toList = c :: cs := ⟨_, _, rfl⟩
  rw [hcons, List.cons_append] at hstart ⊢
  rw [openedIn?, hcons, hstart, Option.bind_some, h]

theorem openedAfterQuote?_append {name : List Char} (hne : name ≠ []) (hquote : '\'' ∉ name) :
    openedAfterQuote? (name ++ '\'' :: " for writing".toList) = some (withoutTmp name) := by
  obtain ⟨c, cs, rfl⟩ := List.exists_cons_of_ne_nil hne
  rw [openedAfterQuote?, Text.splitFirst?_append_of_not_mem hquote]
  rfl

theorem openedIn?_openingLine {name : String} (haddress : ¬ "Opening '".toList <:+: address.toList)
    (hne : name ≠ "") (hquote : '\'' ∉ name.toList) :
    openedIn? (openingLine address name).toList = some (withoutTmp name.toList) := by
  have hline : (openingLine address name).toList = ("[hls @ ".toList ++ address.toList) ++
      ']' :: ' ' :: ("Opening '".toList ++ (name.toList ++ '\'' :: " for writing".toList)) := by
    simp [openingLine]
  have hfront : ¬ "Opening '".toList <:+: "[hls @ ".toList ++ address.toList := by
    simpa [List.infix_cons_iff] using haddress
  rw [hline, openedIn?_append hfront (by decide), openedIn?_cons (by simp)]
  exact openedIn?_opening
    (openedAfterQuote?_append (mt String.toList_eq_nil_iff.1 hne) hquote)

theorem announced?_openingLine (address name : String) :
    announced? (openingLine address name) =
      (openedIn? (openingLine address name).toList).bind fun file =>
        if isNullSink (String.ofList file) then none else some ⟨String.ofList file⟩ := by
  have houtput : ¬ Text.startsWith "Output #" (openingLine address name) = true := by
    simp [Text.startsWith_iff, openingLine]
  have hadaptive : Text.startsWith "[hls @ " (openingLine address name) = true := by
    simp [Text.startsWith_iff, openingLine]
  rw [announced?, if_neg houtput, if_pos hadaptive]
  cases openedIn? (openingLine address name).toList <;> rfl

theorem not_mem_of_announced? {name : String}
    (h : announced? (openingLine address name) = some file) : '\'' ∉ file.text.toList := by
  rw [announced?_openingLine] at h
  obtain ⟨opened, hopened, hfile⟩ := Option.bind_eq_some_iff.1 h
  split_ifs at hfile
  obtain rfl := Option.some.inj hfile
  rw [String.toList_ofList]
  exact not_mem_of_openedIn? hopened

/-- So no opening line records such a file. -/
theorem mem_of_mem_observe_openingLine {name : String} (hquote : '\'' ∈ target.toList)
    (h : file ∈ observe files (openingLine address name)) (hsame : file.same ⟨target⟩ = true) :
    file ∈ files := by
  cases hline : announced? (openingLine address name) with
  | none => rwa [observe_of_announced?_none hline] at h
  | some found =>
    rw [observe_of_announced?_some hline] at h
    rcases (recorded_remember files found).mem_cases h with hmem | rfl
    · exact hmem
    · rw [Path.same_comm] at hsame
      exact absurd (Path.mem_text_of_same hsame hquote (by decide) (by decide))
        (not_mem_of_announced? hline)

/-- An opening line records its file, whatever is known already, exactly if there is no apostrophe
in its name. A file with an apostrophe in its name is never recorded. -/
theorem recorded_openingLine_iff (haddress : ¬ "Opening '".toList <:+: address.toList)
    (hne : target ≠ "") (hsink : isNullSink target = false) (htmp : ¬ ".tmp".toList <:+ target.toList)
    (hending : ending = "" ∨ ending = ".tmp") :
    ((∀ files, Recorded files ⟨target⟩ (observe files (openingLine address (target ++ ending)))) ↔
        '\'' ∉ target.toList) ∧
      ('\'' ∈ target.toList → ∀ files,
        ∀ file ∈ observe files (openingLine address (target ++ ending)),
          file.same ⟨target⟩ = true → file ∈ files) := by
  have hnever : '\'' ∈ target.toList → ∀ files,
      ∀ file ∈ observe files (openingLine address (target ++ ending)),
        file.same ⟨target⟩ = true → file ∈ files :=
    fun hquote _ _ hmem hsame => mem_of_mem_observe_openingLine hquote hmem hsame
  refine ⟨⟨fun hrecorded hquote => ?_, fun hquote files => ?_⟩, hnever⟩
  · obtain ⟨other, hmem, hsame⟩ := (hrecorded []).exists_same
    exact absurd (hnever hquote [] other hmem hsame) List.not_mem_nil
  · have hname : withoutTmp (target ++ ending).toList = target.toList := by
      rw [String.toList_append]
      rcases hending with rfl | rfl
      · simpa using withoutTmp_of_not_suffix htmp
      · exact withoutTmp_append (mt String.toList_eq_nil_iff.1 hne)
    have hwhole : '\'' ∉ (target ++ ending).toList := by
      rcases hending with rfl | rfl <;> simpa using hquote
    have hopened := openedIn?_openingLine haddress (by simp [hne]) hwhole
    have hread : announced? (openingLine address (target ++ ending)) = some ⟨target⟩ := by
      rw [announced?_openingLine, hopened, Option.bind_some, hname, String.ofList_toList, hsink]
      rfl
    rw [observe_of_announced?_some hread]
    exact recorded_remember files ⟨target⟩

/-- A file with blanks in its name, which is new and then known. -/
theorem recorded_openingLine_blanks :
    let line := openingLine "0x55d0" ("/out/my talk_0.mp4" ++ ".tmp")
    ¬ "Opening '".toList <:+: "0x55d0".toList ∧ isNullSink "/out/my talk_0.mp4" = false ∧
      ¬ ".tmp".toList <:+ "/out/my talk_0.mp4".toList ∧
      Recorded [⟨"/out/my talk.m3u8"⟩] ⟨"/out/my talk_0.mp4"⟩
        (observe [⟨"/out/my talk.m3u8"⟩] line) ∧
      Recorded [⟨"/out//my talk_0.mp4"⟩] ⟨"/out/my talk_0.mp4"⟩
        (observe [⟨"/out//my talk_0.mp4"⟩] line) := by
  intro line
  have haddress : ¬ "Opening '".toList <:+: "0x55d0".toList := by decide
  have hsink : isNullSink "/out/my talk_0.mp4" = false := by decide
  have htmp : ¬ ".tmp".toList <:+ "/out/my talk_0.mp4".toList := by decide
  have hrecorded := (recorded_openingLine_iff haddress (by decide) hsink htmp (Or.inr rfl)).1.2
    (by decide)
  exact ⟨haddress, hsink, htmp, hrecorded _, hrecorded _⟩

/-- The file is not recorded, since its name is read up to the apostrophe only. -/
theorem not_recorded_of_apostrophe :
    let target := "/out/it's_0.mp4"
    target ≠ "" ∧ '\n' ∉ target.toList ∧ isNullSink target = false ∧
      ¬ ".tmp".toList <:+ target.toList ∧
      observe [] (openingLine "0x1" target) = [] ∧
      observe [] (openingLine "0x1" (target ++ ".tmp")) = [] ∧
      ¬ Recorded [] ⟨target⟩ (observe [] (openingLine "0x1" target)) := by
  have hnone : observe [] (openingLine "0x1" "/out/it's_0.mp4") = [] := by decide
  refine ⟨by decide, by decide, by decide, by decide, hnone, by decide, fun hrecorded => ?_⟩
  obtain ⟨other, hmem, -⟩ := hrecorded.exists_same
  rw [hnone] at hmem
  cases hmem

end Montage.Encoder
