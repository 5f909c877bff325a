import Mathlib.Data.List.DropRight
import Montage.Path
import Montage.Proofs.Text.Split

/-!
# Paths that are joined

A path is read piece by piece, and joining two relative paths puts the pieces of
the second behind those of the first, but for an idle piece at the seam. So the
steps of a joined path are those of its parts (`components_join`). The parent of a
joined path can be spelled differently from the path before the join, but names
the same steps (`exists_parent_join`).
-/

namespace Montage.Path

def steps (absolute : Bool) : List String → List Component
  | [] => []
  | first :: rest =>
    (if absolute then [.root] else if first = "." then [.here]
      else (Component.ofPiece? first).toList) ++ rest.filterMap Component.ofPiece?

theorem components_eq (p : Path) : p.components = steps p.isAbsolute p.pieces := rfl

theorem pieces_ne_nil (p : Path) : p.pieces ≠ [] := by
  simpa [pieces, Text.split] using Text.splitAll_ne_nil '/' p.text.toList

/-- An absolute path is one whose first piece is empty and followed by others. -/
theorem isAbsolute_iff {p : Path} :
    p.isAbsolute = true ↔ ∃ second rest, p.pieces = "" :: second :: rest := by
  unfold isAbsolute Text.startsWith pieces Text.split
  cases htext : p.text.toList with
  | nil => simp [Text.splitAll]
  | cons c cs =>
      obtain ⟨part, parts, hparts⟩ := List.exists_cons_of_ne_nil (Text.splitAll_ne_nil '/' cs)
      by_cases hc : c = '/'
      · subst hc
        simp [Text.splitAll, hparts, List.isPrefixOf]
      · have hother : ('/' == c) = false := by simpa using Ne.symm hc
        simp [Text.splitAll, hparts, hc, List.isPrefixOf, hother]

theorem ofPiece?_of_isIdle {piece : String} (h : isIdle piece = true) :
    Component.ofPiece? piece = none := by
  have hidle : piece = "" ∨ piece = "." := by simpa [isIdle] using h
  rw [Component.ofPiece?, if_pos hidle]

theorem steps_dropIdle (absolute : Bool) (first : String) (rest : List String) :
    steps absolute (dropIdle first rest) = steps absolute (first :: rest) := by
  have hrest : (rest.rdropWhile isIdle).filterMap Component.ofPiece? =
      rest.filterMap Component.ofPiece? := by
    induction rest using List.reverseRecOn with
    | nil => rw [List.rdropWhile_nil]
    | append_singleton rest piece ih =>
        rw [List.rdropWhile_concat]
        split
        · rename_i hidle
          rw [ih, List.filterMap_append, List.filterMap_cons_none (ofPiece?_of_isIdle hidle),
            List.filterMap_nil, List.append_nil]
        · rfl
  simp only [dropIdle, steps]
  rw [← hrest]
  rfl

theorem pieces_eq_of_toList {p : Path} {parts : List (List Char)}
    (h : Text.splitAll '/' p.text.toList = parts) : p.pieces = parts.map String.ofList := by
  rw [pieces, Text.split, h]

theorem pieces_of_not_mem {name : String} (h : '/' ∉ name.toList) :
    (Path.mk name).pieces = [name] := by
  simp [pieces, Text.split, Text.splitAll_of_not_mem h]

theorem text_eq_empty_of_pieces {p : Path} (h : p.pieces = [""]) : p.text = "" := by
  cases htext : p.text.toList with
  | nil => exact String.toList_eq_nil_iff.1 htext
  | cons c cs =>
      obtain ⟨part, parts, hparts⟩ := List.exists_cons_of_ne_nil (Text.splitAll_ne_nil '/' cs)
      by_cases hc : c = '/'
      · simp [pieces, Text.split, htext, Text.splitAll, hparts, hc] at h
      · simp [pieces, Text.split, htext, Text.splitAll, hparts, hc] at h

theorem isAbsolute_of_pieces {p : Path} (hp : p.text ≠ "") {first : String} {rest : List String}
    (h : p.pieces = first :: rest) : p.isAbsolute = decide (first = "") := by
  rw [Bool.eq_iff_iff, isAbsolute_iff, decide_eq_true_iff, h]
  constructor
  · rintro ⟨_, _, hpieces⟩
    exact (List.cons.inj hpieces).1
  · rintro rfl
    cases rest with
    | nil => exact absurd (text_eq_empty_of_pieces h) hp
    | cons second rest => exact ⟨second, rest, rfl⟩

/-- A path that is not empty keeps its pieces in front of what is joined to it, but for an
empty piece at its end. -/
theorem exists_pieces_join {p : Path} (hp : p.text ≠ "") :
    ∃ first rest, (p.pieces = first :: rest ∨ p.pieces = first :: (rest ++ [""])) ∧
      ∀ q : Path, q.isAbsolute = false →
        (p.join q).pieces = first :: (rest ++ q.pieces) ∧ (p.join q).text ≠ "" := by
  have hslash (front back : List Char) (q : Path)
      (htext : q.text.toList = front ++ '/' :: back) :
      q.pieces = (Text.splitAll '/' front ++ Text.splitAll '/' back).map String.ofList ∧
        q.text ≠ "" := by
    refine ⟨pieces_eq_of_toList (by rw [htext, Text.splitAll_append]), ?_⟩
    intro hempty
    simp [hempty] at htext
  by_cases hend : Text.endsWith "/" p.text = true
  · obtain ⟨front, hfront⟩ : ∃ front, p.text.toList = front ++ ['/'] := by
      obtain ⟨front, hfront⟩ := List.isSuffixOf_iff_suffix.1 hend
      exact ⟨front, hfront.symm⟩
    obtain ⟨first, rest, hparts⟩ := List.exists_cons_of_ne_nil (Text.splitAll_ne_nil '/' front)
    refine ⟨String.ofList first, rest.map String.ofList, Or.inr ?_, ?_⟩
    · rw [(hslash front [] p hfront).1, hparts]
      simp [Text.splitAll]
    · intro q hq
      have htext : (p.join q).text.toList = front ++ '/' :: q.text.toList := by
        rw [join, if_neg (by simp [hq]), if_pos (Or.inr hend)]
        simp [hfront]
      refine ⟨?_, (hslash _ _ _ htext).2⟩
      rw [(hslash _ _ _ htext).1, hparts]
      simp [pieces, Text.split]
  · obtain ⟨first, rest, hparts⟩ :=
      List.exists_cons_of_ne_nil (Text.splitAll_ne_nil '/' p.text.toList)
    refine ⟨String.ofList first, rest.map String.ofList, Or.inl ?_, ?_⟩
    · simp [pieces_eq_of_toList hparts]
    · intro q hq
      have htext : (p.join q).text.toList = p.text.toList ++ '/' :: q.text.toList := by
        rw [join, if_neg (by simp [hq]), if_neg (by simp [hp, hend])]
        simp
      refine ⟨?_, (hslash _ _ _ htext).2⟩
      rw [(hslash _ _ _ htext).1, hparts]
      simp [pieces, Text.split]

theorem components_of_pieces {p : Path} (hp : p.text ≠ "") {first : String} {rest : List String}
    (h : p.pieces = first :: rest) : p.components = steps (decide (first = "")) (first :: rest) := by
  rw [components_eq, isAbsolute_of_pieces hp h, h]

theorem components_of_text_eq_empty {p : Path} (h : p.text = "") : p.components = [] := by
  obtain ⟨text⟩ := p
  obtain rfl : text = "" := h
  decide

/-- The path is relative and begins with a piece that is not idle. -/
structure IsNamed (p : Path) : Prop where
  relative : p.isAbsolute = false
  first : ∃ name rest, p.pieces = name :: rest ∧ isIdle name = false

theorem IsNamed.components_eq {p : Path} (h : p.IsNamed) :
    p.components = p.pieces.filterMap Component.ofPiece? := by
  obtain ⟨name, rest, hpieces, hname⟩ := h.first
  have hdot : name ≠ "." := by
    rintro rfl
    cases hname
  rw [Path.components_eq, h.relative, hpieces, steps, if_neg Bool.false_ne_true, if_neg hdot]
  cases hstep : Component.ofPiece? name <;> simp [hstep]

theorem components_of_pieces_cases {p : Path} (hp : p.text ≠ "") {first : String}
    {rest : List String} (h : p.pieces = first :: rest ∨ p.pieces = first :: (rest ++ [""])) :
    p.components = steps (decide (first = "")) (first :: rest) := by
  rcases h with h | h
  · exact components_of_pieces hp h
  · rw [components_of_pieces hp h]
    simp [steps, Component.ofPiece?]

theorem components_join (p : Path) {q : Path} (hq : q.IsNamed) :
    (p.join q).components = p.components ++ q.components := by
  by_cases hp : p.text = ""
  · have hjoin : p.join q = q := by
      rw [join, if_neg (by simp [hq.relative]), if_pos (Or.inl hp), hp]
      simp
    rw [hjoin, components_of_text_eq_empty hp, List.nil_append]
  · obtain ⟨first, rest, hpieces, hjoin⟩ := exists_pieces_join hp
    obtain ⟨hjoined, hne⟩ := hjoin q hq.relative
    rw [components_of_pieces hne hjoined, components_of_pieces_cases hp hpieces, hq.components_eq]
    simp [steps]

theorem slash_not_mem_of_mem_pieces {p : Path} {piece : String} (h : piece ∈ p.pieces) :
    '/' ∉ piece.toList := by
  obtain ⟨part, hpart, rfl⟩ := List.mem_map.1 h
  rw [String.toList_ofList]
  exact Text.not_mem_of_mem_splitAll hpart

/-- Without its last name a path has the pieces in front of that name, but for the idle ones at
their end. The root is spelled with a slash, which is one empty piece more. -/
theorem exists_parent_of_pieces {p : Path} {first last : String} {rest : List String}
    (hp : p.pieces = first :: (rest ++ [last])) (hlast : isIdle last = false) :
    ∃ parent, p.parent? = some parent ∧
      (dropIdle first rest = [""] ∧ parent.text = "/" ∨
        parent.pieces = dropIdle first rest ∧ parent.text ≠ "") := by
  have hparent : p.parent? = some ⟨if p.isAbsolute ∧ (dropIdle first rest).length = 1 then "/"
      else "/".intercalate (dropIdle first rest)⟩ := by
    unfold parent?
    rw [hp]
    simp [hlast]
  refine ⟨_, hparent, ?_⟩
  have habsolute : p.isAbsolute = true ↔ first = "" := by
    rw [isAbsolute_iff, hp]
    cases rest <;> simp
  split_ifs with hroot
  · obtain ⟨hfirst, hlength⟩ := hroot
    obtain ⟨piece, hpiece⟩ := List.length_eq_one_iff.1 hlength
    obtain rfl : first = piece := (List.cons.inj hpiece).1
    rw [hpiece, habsolute.1 hfirst]
    exact Or.inl ⟨rfl, rfl⟩
  · have hslashes : ∀ piece ∈ dropIdle first rest, '/' ∉ piece.toList := by
      intro piece hpiece
      apply slash_not_mem_of_mem_pieces (p := p)
      rw [hp, ← List.cons_append]
      apply List.mem_append_left
      rcases List.mem_cons.1 hpiece with rfl | hrest
      · exact List.mem_cons_self
      · have hsubset := (List.dropWhile_sublist isIdle).subset (List.mem_reverse.1 hrest)
        exact List.mem_cons_of_mem _ (List.mem_reverse.1 hsubset)
    have hpieces : (Path.mk ("/".intercalate (dropIdle first rest))).pieces = dropIdle first rest :=
      Text.split_intercalate rfl (List.cons_ne_nil _ _) hslashes
    refine Or.inr ⟨hpieces, fun hempty => ?_⟩
    have hsingle : dropIdle first rest = [""] := by
      rw [← hpieces, pieces, hempty]
      decide
    exact hroot ⟨habsolute.2 (List.cons.inj hsingle).1, by rw [hsingle]; rfl⟩

theorem parent?_of_pieces_eq_singleton {p : Path} {last : String} (hp : p.pieces = [last])
    (hlast : isIdle last = false) : p.parent? = some ⟨""⟩ := by
  have hne : last ≠ "" := by
    rintro rfl
    cases hlast
  unfold parent?
  rw [hp]
  simp [hne]

@[simp] theorem join_empty (q : Path) : (Path.mk "").join q = q := by
  unfold join
  split_ifs <;> simp_all

/-- The parent of a joined name can be spelled differently, but names the same steps. -/
theorem exists_parent_join (p : Path) {name : String} (hname : (Path.mk name).pieces = [name])
    (hidle : isIdle name = false) :
    ∃ parent, (p.join ⟨name⟩).parent? = some parent ∧ parent.components = p.components := by
  have hrelative : (Path.mk name).isAbsolute = false := by
    rw [Bool.eq_false_iff, Ne, isAbsolute_iff, hname]
    simp
  by_cases hp : p.text = ""
  · obtain ⟨text⟩ := p
    obtain rfl : text = "" := hp
    exact ⟨⟨""⟩, by rw [join_empty, parent?_of_pieces_eq_singleton hname hidle], rfl⟩
  · obtain ⟨first, rest, hpieces, hjoin⟩ := exists_pieces_join hp
    have hjoined : (p.join ⟨name⟩).pieces = first :: (rest ++ [name]) := by
      rw [(hjoin ⟨name⟩ hrelative).1, hname]
    obtain ⟨parent, hparent, hleft⟩ := exists_parent_of_pieces hjoined hidle
    refine ⟨parent, hparent, ?_⟩
    rw [components_of_pieces_cases hp hpieces, ← steps_dropIdle]
    rcases hleft with ⟨hroot, htext⟩ | ⟨hleft, hne⟩
    · obtain rfl : first = "" := (List.cons.inj hroot).1
      obtain ⟨text⟩ := parent
      obtain rfl : text = "/" := htext
      rw [hroot]
      rfl
    · rw [components_of_pieces hne hleft]
      rfl

/-- A name without slashes that is not made of dots. -/
structure IsName (name : String) : Prop where
  slash : '/' ∉ name.toList
  other : ∃ c ∈ name.toList, c ≠ '.'

namespace IsName

variable {name : String}

theorem isIdle_append (h : IsName name) (s : String) : isIdle (name ++ s) = false := by
  obtain ⟨c, hc, hdot⟩ := h.other
  rw [Bool.eq_false_iff]
  intro hidle
  have htext : name ++ s = "" ∨ name ++ s = "." := by simpa [isIdle] using hidle
  have hmem : c ∈ (name ++ s).toList := by
    rw [String.toList_append]
    exact List.mem_append_left _ hc
  rcases htext with hempty | hstep
  · rw [hempty] at hmem
    exact absurd hmem List.not_mem_nil
  · rw [hstep] at hmem
    exact hdot (List.mem_singleton.1 hmem)

theorem isIdle (h : IsName name) : Path.isIdle name = false := by
  simpa using h.isIdle_append ""

theorem ne_up (h : IsName name) : name ≠ ".." := by
  rintro rfl
  obtain ⟨c, hc, hdot⟩ := h.other
  simp [hdot] at hc

theorem append (h : IsName name) {s : String} (hs : '/' ∉ s.toList) : IsName (name ++ s) := by
  obtain ⟨c, hc, hdot⟩ := h.other
  constructor
  · rw [String.toList_append, List.mem_append, not_or]
    exact ⟨h.slash, hs⟩
  · refine ⟨c, ?_, hdot⟩
    rw [String.toList_append]
    exact List.mem_append_left _ hc

theorem pieces_eq (h : IsName name) : (Path.mk name).pieces = [name] :=
  pieces_of_not_mem h.slash

theorem isNamed_append (h : IsName name) (s : String) : (Path.mk (name ++ s)).IsNamed := by
  obtain ⟨part, rest, hparts⟩ := Text.exists_splitAll_append h.slash s.toList
  have hpieces : (Path.mk (name ++ s)).pieces =
      (name ++ String.ofList part) :: rest.map String.ofList := by
    rw [pieces, Text.split, String.toList_append, hparts, List.map_cons]
    simp
  have hidle := h.isIdle_append (String.ofList part)
  refine ⟨?_, _, _, hpieces, hidle⟩
  rw [Bool.eq_false_iff, Ne, isAbsolute_iff, hpieces]
  rintro ⟨_, _, hempty⟩
  rw [(List.cons.inj hempty).1] at hidle
  cases hidle

theorem isNamed (h : IsName name) : (Path.mk name).IsNamed := by
  simpa using h.isNamed_append ""

theorem components_eq (h : IsName name) : (Path.mk name).components = [.name name] := by
  have hidle : ¬ (name = "" ∨ name = ".") := by simpa [Path.isIdle] using h.isIdle
  rw [h.isNamed.components_eq, h.pieces_eq]
  simp [Component.ofPiece?, hidle, h.ne_up]

theorem fileName?_join (h : IsName name) (p : Path) : (p.join ⟨name⟩).fileName? = some name := by
  rw [fileName?, components_join p h.isNamed, h.components_eq, List.getLast?_concat]

end IsName

theorem splitName_append {stem ext : String} (hstem : stem ≠ "") (hext : '.' ∉ ext.toList) :
    splitName (stem ++ "." ++ ext) = (stem, some ext) := by
  have hreverse : (stem ++ "." ++ ext).toList.reverse =
      ext.toList.reverse ++ '.' :: stem.toList.reverse := by simp
  obtain ⟨c, cs, hcs⟩ := List.exists_cons_of_ne_nil
    (List.reverse_ne_nil_iff.2 (mt String.toList_eq_nil_iff.1 hstem))
  have hsplit : Text.splitFirst? (· == '.') (stem ++ "." ++ ext).toList.reverse =
      some (ext.toList.reverse, c :: cs) := by
    rw [hreverse, hcs]
    exact Text.splitFirst?_append_of_not_mem (mt List.mem_reverse.1 hext) _
  rw [splitName, hsplit]
  simp [← hcs]

end Montage.Path
