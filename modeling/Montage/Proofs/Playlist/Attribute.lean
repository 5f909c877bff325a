import Montage.Proofs.Playlist.Reference

/-!
# The attribute of a tag gets the new name

A tag names its file in the `URI` attribute. When the file has a new name, the name is
replaced where it stands first in the line. That is the attribute unless the name stands in
front of it as well, in the tag itself or in another attribute: then that place is changed
instead, and the attribute keeps the old name (`renew_tagLine`).
-/

namespace Montage.Playlist

def tagLine (before uri after : String) : String := before ++ "URI=\"" ++ uri ++ "\"" ++ after

/-- The name stands in front of the attribute's value. -/
def StandsInFront (uri before : String) : Prop := uri.toList <:+: (before ++ "URI=").toList

instance (uri before : String) : Decidable (StandsInFront uri before) :=
  inferInstanceAs (Decidable (uri.toList <:+: _))

def renamedLine (before uri new after : String) : String :=
  match Text.find? uri.toList (before ++ "URI=").toList with
  | some (front, back) =>
    String.ofList front ++ new ++ String.ofList back ++ "\"" ++ uri ++ "\"" ++ after
  | none => tagLine before new after

variable {names : NewNames} {before uri new after : String}

theorem toList_tagLine (before uri after : String) :
    (tagLine before uri after).toList =
      before.toList ++ uriStart ++ (uri.toList ++ '"' :: after.toList) := by
  simp [tagLine, uriStart]

theorem uriIn?_uriStart {cs : List Char} (h : ¬ uriStart <:+: cs) :
    uriIn? (cs ++ uriStart) = none := by
  induction cs with
  | nil => decide
  | cons c cs ih =>
    rw [List.infix_cons_iff, not_or] at h
    have hopened : uriAt? (c :: cs ++ uriStart) = none := by
      -- the attribute's first letter does not come again in it, so it is not opened at the seam
      have hseam : uriStart <+: c :: cs ++ uriStart → uriStart <+: c :: cs := by
        rintro hstart
        obtain ⟨rfl, hrest⟩ := List.cons_prefix_cons.1 hstart
        refine List.cons_prefix_cons.2 ⟨rfl, ?_⟩
        exact (Text.prefix_append_cons_iff (by decide)).1 hrest
      rw [uriAt?, Text.isPrefixOf?_eq_none_iff.2 (mt hseam h.1), Option.bind_none]
    rw [List.cons_append, uriIn?_cons, ← List.cons_append, hopened]
    exact ih h.2

theorem ofLine?_tagLine (htag : namesFile (tagLine before uri after) = true)
    (hfirst : ¬ uriStart <:+: before.toList) (hne : uri ≠ "") (hquote : '"' ∉ uri.toList) :
    Reference.ofLine? (tagLine before uri after) = some (.tag uri) := by
  rw [Reference.ofLine?_eq_tag_iff, toList_tagLine]
  exact ⟨htag, uriIn?_append (uriIn?_uriStart hfirst) (mt String.toList_eq_nil_iff.1 hne) hquote⟩

/-- The name is found in front of the attribute's value, or else in it. -/
theorem replaceFirst_tagLine (hne : uri ≠ "") (hquote : '"' ∉ uri.toList) :
    String.ofList (Text.replaceFirst uri.toList new.toList (tagLine before uri after).toList) =
      renamedLine before uri new after := by
  have hpattern : uri.toList ≠ [] := mt String.toList_eq_nil_iff.1 hne
  have hline : (tagLine before uri after).toList =
      (before ++ "URI=").toList ++ '"' :: (uri.toList ++ '"' :: after.toList) := by
    simp [tagLine]
  rw [Text.replaceFirst, hline, Text.find?_append_cons hpattern hquote,
    Text.find?_append_self hpattern, renamedLine, ← String.toList_inj]
  cases Text.find? uri.toList (before ++ "URI=").toList with
  | some parts => simp
  | none => simp [tagLine]

theorem renamedLine_of_not_standsInFront (hne : uri ≠ "") (h : ¬ StandsInFront uri before) :
    renamedLine before uri new after = tagLine before new after := by
  have hnone := (Text.find?_eq_none_iff (mt String.toList_eq_nil_iff.1 hne)).2 h
  rw [renamedLine, hnone]

/-- Where a name in front of the attribute was replaced, the attribute still holds the old name. -/
theorem eq_of_renamedLine_eq (h : StandsInFront uri before) (hne : uri ≠ "")
    (hquote : '"' ∉ uri.toList) (hnew : '"' ∉ new.toList)
    (heq : renamedLine before uri new after = tagLine before new after) : new = uri := by
  obtain ⟨⟨front, back⟩, hfind⟩ :
      ∃ parts, Text.find? uri.toList (before ++ "URI=").toList = some parts := by
    rw [← Option.ne_none_iff_exists', Ne, Text.find?_eq_none_iff (mt String.toList_eq_nil_iff.1 hne),
      not_not]
    exact h
  rw [renamedLine, hfind] at heq
  have hlines : (front ++ new.toList ++ back) ++ '"' :: uri.toList ++ '"' :: after.toList =
      (before ++ "URI=").toList ++ '"' :: new.toList ++ '"' :: after.toList := by
    simpa [tagLine] using congrArg String.toList heq
  have hends := List.append_cancel_right hlines
  -- neither name has a quote, so both are what is behind the last one
  have hsplit := congrArg (fun cs => Text.splitFirst? (· == '"') cs.reverse) hends
  simp only [List.reverse_append, List.reverse_cons, List.append_assoc, List.cons_append,
    List.nil_append] at hsplit
  rw [Text.splitFirst?_append_of_not_mem (mt List.mem_reverse.1 hquote),
    Text.splitFirst?_append_of_not_mem (mt List.mem_reverse.1 hnew)] at hsplit
  have hreverse : uri.toList.reverse = new.toList.reverse :=
    congrArg Prod.fst (Option.some.inj hsplit)
  exact (String.toList_inj.1 (List.reverse_injective hreverse)).symm

/-- In a tag whose file has a new name, that name is put where the old one stands first. If the
new name has no quotes, it is put into the attribute, and nothing else changes, exactly if the old
name does not stand in front of it. The other lines are renewed on their own. -/
theorem renew_tagLine {playlist : String} {above below : List String}
    (hline : Text.lines playlist = above ++ tagLine before uri after :: below)
    (htag : namesFile (tagLine before uri after) = true)
    (hfirst : ¬ uriStart <:+: before.toList) (hne : uri ≠ "") (hquote : '"' ∉ uri.toList)
    (hnew : names[uri]? = some new) :
    renew names playlist = String.join ((above.map (renewLine names) ++
        renamedLine before uri new after :: below.map (renewLine names)).map (· ++ "\n")) ∧
      (¬ StandsInFront uri before → renamedLine before uri new after = tagLine before new after) ∧
      ('"' ∉ new.toList → new ≠ uri → StandsInFront uri before →
        renamedLine before uri new after ≠ tagLine before new after) := by
  refine ⟨?_, renamedLine_of_not_standsInFront hne, fun hplain hother hfront heq => ?_⟩
  · have hrenewed : renewLine names (tagLine before uri after) = renamedLine before uri new after := by
      rw [Reference.renewLine_of_tag (ofLine?_tagLine htag hfirst hne hquote), hnew]
      exact replaceFirst_tagLine hne hquote
    rw [renew, hline, ← hrenewed]
    simp [List.map_append, Function.comp_def]
  · exact hother (eq_of_renamedLine_eq hfront hne hquote hplain heq)

/-- An attribute between others, on a line between others. -/
theorem renew_tagLine_between :
    let names : NewNames := .ofList [("seg.mp4", "seg-low.mp4")]
    let before := "#EXT-X-MEDIA:TYPE=AUDIO,NAME=\"low\","
    let after := ",LANGUAGE=\"en\""
    let playlist := "#EXTM3U\n" ++ tagLine before "seg.mp4" after ++ "\nseg.mp4\n"
    Text.lines playlist = ["#EXTM3U"] ++ tagLine before "seg.mp4" after :: ["seg.mp4"] ∧
      namesFile (tagLine before "seg.mp4" after) = true ∧ ¬ uriStart <:+: before.toList ∧
      names["seg.mp4"]? = some "seg-low.mp4" ∧ ¬ StandsInFront "seg.mp4" before ∧
      renew names playlist =
        "#EXTM3U\n" ++ tagLine before "seg-low.mp4" after ++ "\nseg-low.mp4\n" := by
  intro names before after playlist
  have hline : Text.lines playlist =
      ["#EXTM3U"] ++ tagLine before "seg.mp4" after :: ["seg.mp4"] := by decide +kernel
  have htag : namesFile (tagLine before "seg.mp4" after) = true := by decide +kernel
  have hfirst : ¬ uriStart <:+: before.toList := by decide +kernel
  have hnew : names["seg.mp4"]? = some "seg-low.mp4" := by decide +kernel
  have hfront : ¬ StandsInFront "seg.mp4" before := by decide +kernel
  obtain ⟨hrenewed, hplace, -⟩ :=
    renew_tagLine hline htag hfirst (by decide) (by decide) hnew
  refine ⟨hline, htag, hfirst, hnew, hfront, hrenewed.trans ?_⟩
  rw [hplace hfront]
  decide +kernel

/-- Another attribute has the same value, so it gets the new name. -/
theorem renew_tagLine_repeated :
    let names : NewNames := .ofList [("seg.mp4", "seg-low.mp4")]
    let before := "#EXT-X-MEDIA:TYPE=AUDIO,NAME=\"seg.mp4\","
    namesFile (tagLine before "seg.mp4" "") = true ∧ ¬ uriStart <:+: before.toList ∧
      names["seg.mp4"]? = some "seg-low.mp4" ∧
      renew names (tagLine before "seg.mp4" "" ++ "\n") =
        tagLine "#EXT-X-MEDIA:TYPE=AUDIO,NAME=\"seg-low.mp4\"," "seg.mp4" "" ++ "\n" ∧
      renew names (tagLine before "seg.mp4" "" ++ "\n") ≠
        tagLine before "seg-low.mp4" "" ++ "\n" := by
  decide +kernel

end Montage.Playlist
