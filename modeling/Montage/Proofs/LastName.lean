import Montage.Proofs.Path

/-!
# The last name of a path

With another last name a path keeps its pieces in front of the name, but for idle ones
(`exists_pieces_withName`), and its text begins and ends as it should: with the first
character of the path and with the new name.
-/

namespace Montage.Path

def withName (p : Path) (name : String) : Path := (p.parent?.getD ⟨""⟩).join ⟨name⟩

theorem isAbsolute_of_not_mem {name : String} (h : '/' ∉ name.toList) :
    (Path.mk name).isAbsolute = false := by
  rw [Bool.eq_false_iff, Ne, isAbsolute_iff, pieces_of_not_mem h]
  simp

theorem exists_front (p : Path) (absolute : Bool) : ∃ front whole, ∀ q : Path,
    q.isAbsolute = absolute →
      (p.join q).pieces = front ++ q.pieces ∧ (p.join q).isAbsolute = whole := by
  cases absolute with
  | true => exact ⟨[], true, fun q hq => by simp [join, hq]⟩
  | false =>
    by_cases hp : p.text = ""
    · refine ⟨[], false, fun q hq => ?_⟩
      obtain ⟨text⟩ := p
      obtain rfl : text = "" := hp
      simp [hq]
    · obtain ⟨first, rest, _, hjoin⟩ := exists_pieces_join hp
      refine ⟨first :: rest, decide (first = ""), fun q hq => ?_⟩
      obtain ⟨hpieces, hne⟩ := hjoin q hq
      exact ⟨hpieces, isAbsolute_of_pieces hne hpieces⟩

theorem isAbsolute_iff_head? {p : Path} {before : List String} {last : String}
    (h : p.pieces = before ++ [last]) : p.isAbsolute = decide (before.head? = some "") := by
  rw [Bool.eq_iff_iff, isAbsolute_iff, decide_eq_true_iff, h]
  cases before with
  | nil => simp
  | cons first before => cases before <;> simp

/-- What is joined to the parent of a path stands behind the pieces that the parent keeps. -/
theorem exists_pieces_parent_join {p : Path} {first last : String} {rest : List String}
    (hp : p.pieces = first :: (rest ++ [last])) (hlast : isIdle last = false) :
    ∃ parent, p.parent? = some parent ∧ ∀ q : Path, q.isAbsolute = false →
      (parent.join q).pieces = dropIdle first rest ++ q.pieces := by
  obtain ⟨parent, hparent, ⟨hroot, htext⟩ | ⟨hleft, hne⟩⟩ := exists_parent_of_pieces hp hlast
  · refine ⟨parent, hparent, fun q hq => ?_⟩
    have hjoin : (parent.join q).text.toList = [] ++ '/' :: q.text.toList := by
      simp [join, hq, htext, Text.endsWith]
    rw [hroot, pieces_eq_of_toList (by rw [hjoin, Text.splitAll_append]), pieces, Text.split]
    simp [Text.splitAll]
  · refine ⟨parent, hparent, fun q hq => ?_⟩
    obtain ⟨front, back, hends | hends, hjoin⟩ := exists_pieces_join hne
    · rw [(hjoin q hq).1, ← List.cons_append, ← hends, hleft]
    -- no idle piece is left at the end, so the parent ends in no slash
    · have hback : rest.rdropWhile isIdle = back ++ [""] :=
        (List.cons.inj (hleft.symm.trans hends)).2
      have hidle := List.rdropWhile_last_not isIdle rest (by simp [hback])
      simp [hback, isIdle] at hidle

/-- With another last name, idle pieces in front of the name may go, and all others stay. -/
theorem exists_pieces_withName {p : Path} {before : List String} {last : String}
    (hp : p.pieces = before ++ [last]) (hlast : isIdle last = false) {name : String}
    (hslash : '/' ∉ name.toList) :
    ∃ kept idles, before = kept ++ idles ∧ (∀ piece ∈ idles, isIdle piece = true) ∧
      kept.head? = before.head? ∧ (p.withName name).pieces = kept ++ [name] := by
  cases before with
  | nil =>
    refine ⟨[], [], rfl, by simp, rfl, ?_⟩
    rw [withName, parent?_of_pieces_eq_singleton hp hlast, Option.getD_some, join_empty,
      pieces_of_not_mem hslash]
    rfl
  | cons first rest =>
    have hsplit : rest.rdropWhile isIdle ++ rest.rtakeWhile isIdle = rest :=
      List.rdropWhile_append_rtakeWhile
    refine ⟨dropIdle first rest, rest.rtakeWhile isIdle, ?_,
      fun piece hpiece => List.mem_rtakeWhile_imp hpiece, rfl, ?_⟩
    · rw [← congrArg (List.cons first) hsplit]
      rfl
    · obtain ⟨parent, hparent, hjoin⟩ := exists_pieces_parent_join hp hlast
      rw [withName, hparent, Option.getD_some, hjoin _ (isAbsolute_of_not_mem hslash),
        pieces_of_not_mem hslash]

theorem same_withName {p : Path} {last : String} (h : p.pieces.getLast? = some last)
    (hlast : isIdle last = false) (hslash : '/' ∉ last.toList) :
    (p.withName last).same p = true := by
  have hsplit := (List.dropLast_append_getLast? last h).symm
  obtain ⟨kept, idles, hbefore, hidles, hhead, hnew⟩ := exists_pieces_withName hsplit hlast hslash
  have habsolute : (p.withName last).isAbsolute = p.isAbsolute := by
    rw [isAbsolute_iff_head? hnew, isAbsolute_iff_head? hsplit, hhead]
  have hnone : idles.filterMap Component.ofPiece? = [] :=
    List.filterMap_eq_nil_iff.2 fun piece hpiece => ofPiece?_of_isIdle (hidles piece hpiece)
  rw [same_iff, components_eq, components_eq, habsolute, hnew, hsplit]
  cases hkept : kept with
  | nil =>
    rw [hkept, List.head?_nil, eq_comm, List.head?_eq_none_iff] at hhead
    rw [hhead]
  | cons first more =>
    rw [hbefore, hkept]
    simp [steps, hnone]

theorem ofPiece?_of_name {name : String} (h : name ≠ "" ∧ name ≠ "." ∧ name ≠ "..") :
    Component.ofPiece? name = some (.name name) := by
  simp [Component.ofPiece?, h.1, h.2.1, h.2.2]

theorem fileName?_of_getLast? {p : Path} {name : String} (h : p.pieces.getLast? = some name)
    (hname : name ≠ "" ∧ name ≠ "." ∧ name ≠ "..") : p.fileName? = some name := by
  have hpiece := ofPiece?_of_name hname
  have hpieces := List.dropLast_append_getLast? name h
  rw [fileName?, components_eq, ← hpieces]
  cases hbefore : p.pieces.dropLast with
  | nil =>
    have hrelative : p.isAbsolute = false := by
      rw [isAbsolute_iff_head? hpieces.symm, hbefore]
      simp
    simp [steps, hrelative, hpiece, hname.2.1]
  | cons first rest => simp [steps, hpiece]

theorem fileName_of_eq_some {p : Path} {name : String} (h : p.fileName? = some name) :
    p.fileName = name := by
  rw [fileName, h, Option.getD_some]

theorem mem_pieces_of_mem_components {p : Path} {name : String} (h : .name name ∈ p.components) :
    name ∈ p.pieces := by
  have hpiece {piece : String} (hname : Component.ofPiece? piece = some (.name name)) :
      piece = name := by
    unfold Component.ofPiece? at hname
    split_ifs at hname
    · cases hname
    · exact Component.name.inj (Option.some.inj hname)
  rw [components_eq] at h
  cases hpieces : p.pieces with
  | nil => exact absurd hpieces p.pieces_ne_nil
  | cons first rest =>
    rw [hpieces, steps] at h
    rcases List.mem_append.1 h with hfirst | hrest
    · split_ifs at hfirst
      · simp at hfirst
      · simp at hfirst
      · rw [← hpiece (Option.mem_toList.1 hfirst)]
        exact List.mem_cons_self
    · obtain ⟨piece, hmem, hname⟩ := List.mem_filterMap.1 hrest
      rw [← hpiece hname]
      exact List.mem_cons_of_mem _ hmem

theorem mem_components_of_mem_pieces {p : Path} {name : String} (h : name ∈ p.pieces)
    (hname : name ≠ "" ∧ name ≠ "." ∧ name ≠ "..") : .name name ∈ p.components := by
  have hpiece := ofPiece?_of_name hname
  rw [components_eq]
  cases hpieces : p.pieces with
  | nil => exact absurd hpieces p.pieces_ne_nil
  | cons first rest =>
    rw [hpieces] at h
    rw [steps, List.mem_append]
    rcases List.mem_cons.1 h with rfl | hrest
    · left
      have hrelative : ¬ p.isAbsolute = true := by
        rw [isAbsolute_iff, hpieces]
        rintro ⟨_, _, hempty⟩
        exact hname.1 (List.cons.inj hempty).1
      rw [if_neg hrelative, if_neg hname.2.1, hpiece]
      exact List.mem_singleton_self _
    · exact Or.inr (List.mem_filterMap.2 ⟨name, hrest, hpiece⟩)

theorem mem_pieces_of_fileName? {p : Path} {name : String} (h : p.fileName? = some name) :
    name ∈ p.pieces := by
  apply mem_pieces_of_mem_components
  unfold fileName? at h
  split at h
  · rename_i hlast
    cases h
    exact List.mem_of_getLast? hlast
  · cases h

theorem mem_text_of_mem_pieces {p : Path} {piece : String} (h : piece ∈ p.pieces) {c : Char}
    (hc : c ∈ piece.toList) : c ∈ p.text.toList := by
  obtain ⟨part, hpart, rfl⟩ := List.mem_map.1 h
  rw [String.toList_ofList] at hc
  exact Text.mem_of_mem_splitAll hpart hc

theorem mem_text_of_same {p q : Path} (h : p.same q = true) {c : Char} (hc : c ∈ p.text.toList)
    (hslash : c ≠ '/') (hdot : c ≠ '.') : c ∈ q.text.toList := by
  obtain ⟨part, hpart, hmem⟩ := Text.exists_mem_splitAll hslash hc
  have hother : ∀ steps : String, (∀ d ∈ steps.toList, d = '.') → String.ofList part ≠ steps := by
    rintro _ hdots rfl
    exact hdot (hdots c (by simpa using hmem))
  have hstep := mem_components_of_mem_pieces (List.mem_map_of_mem hpart)
    ⟨hother "" (by simp), hother "." (by simp), hother ".." (by simp)⟩
  rw [same_iff.1 h] at hstep
  exact mem_text_of_mem_pieces (mem_pieces_of_mem_components hstep) (by simpa using hmem)

theorem withName_of_not_mem {text : String} (h : '/' ∉ text.toList) (name : String) :
    (Path.mk text).withName name = ⟨name⟩ := by
  have hparent : (Path.mk text).parent?.getD ⟨""⟩ = ⟨""⟩ := by
    unfold parent?
    rw [pieces_of_not_mem h]
    by_cases hempty : text = "" <;> simp [hempty]
  rw [withName, hparent, join_empty]

theorem head?_text {p : Path} {first : String} {rest : List String} (h : p.pieces = first :: rest) :
    p.text.toList.head? =
      if first = "" then (if rest = [] then none else some '/') else first.toList.head? := by
  unfold pieces Text.split at h
  cases htext : p.text.toList with
  | nil =>
    rw [htext] at h
    obtain ⟨rfl, rfl⟩ := List.cons.inj h
    rfl
  | cons c cs =>
    obtain ⟨part, parts, hparts⟩ := List.exists_cons_of_ne_nil (Text.splitAll_ne_nil '/' cs)
    rw [htext, Text.splitAll, hparts] at h
    by_cases hc : c = '/'
    · rw [if_pos hc] at h
      obtain ⟨rfl, rfl⟩ := List.cons.inj h
      simp [hc]
    · rw [if_neg hc] at h
      obtain ⟨rfl, rfl⟩ := List.cons.inj h
      simp

theorem head?_withName {p : Path} {before : List String} {last : String}
    (hp : p.pieces = before ++ [last]) (hlast : isIdle last = false) {name : String}
    (hslash : '/' ∉ name.toList) (hname : name.toList.head? = last.toList.head?) :
    (p.withName name).text.toList.head? = p.text.toList.head? := by
  obtain ⟨kept, idles, -, -, hhead, hnew⟩ := exists_pieces_withName hp hlast hslash
  cases before with
  | nil =>
    obtain rfl : kept = [] := by simpa using hhead
    have hne : last ≠ "" := by
      rintro rfl
      cases hlast
    have hne' : name ≠ "" := by
      rintro rfl
      exact hne (String.toList_eq_nil_iff.1 (List.head?_eq_none_iff.1 hname.symm))
    rw [head?_text hp, head?_text hnew, if_neg hne, if_neg hne', hname]
  | cons first rest =>
    obtain ⟨kept, rfl⟩ : ∃ more, kept = first :: more := List.head?_eq_some_iff.1 hhead
    rw [List.cons_append] at hp hnew
    rw [head?_text hp, head?_text hnew]
    simp

theorem exists_text_join (p q : Path) : ∃ front, (p.join q).text = front ++ q.text := by
  unfold join
  split_ifs
  · exact ⟨"", by simp⟩
  · exact ⟨p.text, rfl⟩
  · exact ⟨p.text ++ "/", rfl⟩

theorem forall_mem_text_join {P : Char → Prop} {p q : Path} (hp : ∀ c ∈ p.text.toList, P c)
    (hq : ∀ c ∈ q.text.toList, P c) (hslash : P '/') : ∀ c ∈ (p.join q).text.toList, P c := by
  unfold join
  split_ifs
  · exact hq
  · simpa [or_imp, forall_and] using ⟨hp, hq⟩
  · simpa [or_imp, forall_and] using ⟨hp, hslash, hq⟩

theorem forall_mem_text_parent {P : Char → Prop} {p parent : Path} (h : p.parent? = some parent)
    (hp : ∀ c ∈ p.text.toList, P c) (hslash : P '/') : ∀ c ∈ parent.text.toList, P c := by
  have hpieces : ∀ piece ∈ p.pieces, ∀ c ∈ piece.toList, P c := fun piece hpiece c hc =>
    hp c (mem_text_of_mem_pieces hpiece hc)
  unfold parent? at h
  split at h
  · cases h
  · rename_i first rest hsplit
    rw [hsplit] at hpieces
    split at h
    · rename_i last before hbefore
      cases h
      split_ifs
      · simpa using hslash
      · refine Text.forall_mem_intercalate (by simpa using hslash) fun piece hpiece => ?_
        apply hpieces
        rcases List.mem_cons.1 hpiece with rfl | hpiece
        · exact List.mem_cons_self
        · have hkept := (List.dropWhile_sublist isIdle).subset (List.mem_reverse.1 hpiece)
          have hrest : piece ∈ rest.reverse.dropWhile isIdle := by
            rw [hbefore]
            exact List.mem_cons_of_mem _ (by simpa using hkept)
          exact List.mem_cons_of_mem _
            (List.mem_reverse.1 ((List.dropWhile_sublist isIdle).subset hrest))
    · split_ifs at h
      cases h
      simp

theorem exists_eq_append_stem (name : String) :
    ∃ rest, name = (splitName name).1 ++ rest ∧ (name ≠ "" → (splitName name).1 ≠ "") := by
  unfold splitName
  split
  · rename_i ext c stem hsplit
    obtain ⟨-, d, -, hname⟩ := Text.splitFirst?_eq_some hsplit
    have htext := congrArg List.reverse hname
    refine ⟨String.ofList (d :: ext.reverse), ?_, fun _ => by simp⟩
    rw [List.reverse_reverse] at htext
    rw [← String.toList_inj, htext]
    simp
  · exact ⟨"", by simp, id⟩

end Montage.Path
