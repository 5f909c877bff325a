import Montage.Proofs.LastName

/-!
# The steps of an absolute path

Making a path absolute puts the steps of a relative path behind those of the
working directory, and leaves the steps of an absolute one. Joining does the same
with the directory that the path is joined to. So both say the same of a relative
path exactly if the directory is the working directory, `same_absolute_iff`.
-/

namespace Montage.Path

def tail (p : Path) : List Component := p.pieces.filterMap Component.ofPiece?

theorem ofPiece?_eq_some {piece : String} {c : Component} (h : Component.ofPiece? piece = some c) :
    c.text = piece ∧ isIdle piece = false ∧ c ≠ .root ∧ c ≠ .here := by
  unfold Component.ofPiece? at h
  split at h
  · cases h
  · rename_i hidle
    have hplain : isIdle piece = false := by simpa [isIdle] using hidle
    split at h
    · rename_i hup
      cases h
      exact ⟨hup.symm, hplain, by simp, by simp⟩
    · cases h
      exact ⟨rfl, hplain, by simp, by simp⟩

theorem isNamed_of_mem_tail {p : Path} {c : Component} (h : c ∈ p.tail) :
    (Path.mk c.text).IsNamed ∧ (Path.mk c.text).components = [c] := by
  obtain ⟨piece, hpiece, hc⟩ := List.mem_filterMap.1 h
  obtain ⟨rfl, hidle, -⟩ := ofPiece?_eq_some hc
  have hpieces := pieces_of_not_mem (slash_not_mem_of_mem_pieces hpiece)
  have hnamed : (Path.mk c.text).IsNamed := by
    refine ⟨?_, c.text, [], hpieces, hidle⟩
    rw [Bool.eq_false_iff, Ne, isAbsolute_iff, hpieces]
    simp
  refine ⟨hnamed, ?_⟩
  rw [hnamed.components_eq, hpieces]
  simp [hc]

theorem components_of_isAbsolute {p : Path} (h : p.isAbsolute = true) :
    p.components = .root :: p.tail := by
  obtain ⟨second, rest, hpieces⟩ := isAbsolute_iff.1 h
  rw [components_eq, tail, h, hpieces, steps, if_pos rfl, List.filterMap_cons]
  rfl

theorem isAbsolute_of_startsWith {p : Path} (h : Text.startsWith "//" p.text = true) :
    p.isAbsolute = true := by
  obtain ⟨rest, hrest⟩ := List.isPrefixOf_iff_prefix.1 h
  exact List.isPrefixOf_iff_prefix.2 ⟨'/' :: rest, hrest⟩

theorem filter_components (p : Path) :
    (p.components.filter fun c => c != .root && c != .here) = p.tail := by
  have hkept (pieces : List String) :
      ((pieces.filterMap Component.ofPiece?).filter fun c => c != .root && c != .here) =
        pieces.filterMap Component.ofPiece? := by
    rw [List.filter_eq_self]
    intro c hc
    obtain ⟨piece, _, hpiece⟩ := List.mem_filterMap.1 hc
    obtain ⟨-, -, hroot, hhere⟩ := ofPiece?_eq_some hpiece
    simp [hroot, hhere]
  cases habsolute : p.isAbsolute with
  | true =>
      rw [components_of_isAbsolute habsolute, List.filter_cons, tail]
      exact hkept _
  | false =>
      obtain ⟨first, rest, hpieces⟩ := List.exists_cons_of_ne_nil p.pieces_ne_nil
      rw [components_eq, tail, habsolute, hpieces, steps, if_neg Bool.false_ne_true]
      by_cases hfirst : first = "."
      · subst hfirst
        rw [if_pos rfl, List.filterMap_cons]
        exact hkept rest
      · have hall : (Component.ofPiece? first).toList ++ rest.filterMap Component.ofPiece? =
            (first :: rest).filterMap Component.ofPiece? := by
          rw [List.filterMap_cons]
          cases Component.ofPiece? first <;> rfl
        rw [if_neg hfirst, hall]
        exact hkept (first :: rest)

theorem components_join_of_relative {p q : Path} (hp : p.text ≠ "") (hq : q.isAbsolute = false) :
    (p.join q).components = p.components ++ q.tail := by
  obtain ⟨first, rest, hpieces, hjoin⟩ := exists_pieces_join hp
  obtain ⟨hjoined, hne⟩ := hjoin q hq
  rw [components_of_pieces hne hjoined, components_of_pieces_cases hp hpieces, tail]
  simp [steps]

theorem components_join_empty (p : Path) : (p.join ⟨""⟩).components = p.components := by
  by_cases hp : p.text = ""
  · have hsame : p.join ⟨""⟩ = p := by
      rw [join, if_neg (by decide), if_pos (Or.inl hp)]
      simp
    rw [hsame]
  · have htail : (Path.mk "").tail = [] := by decide
    rw [components_join_of_relative hp (by decide), htail, List.append_nil]

theorem components_foldl_join {components : List Component}
    (h : ∀ c ∈ components, (Path.mk c.text).IsNamed ∧ (Path.mk c.text).components = [c])
    (start : Path) :
    (components.foldl (fun q c => q.join ⟨c.text⟩) start).components =
      start.components ++ components := by
  induction components generalizing start with
  | nil => simp
  | cons c components ih =>
      obtain ⟨hnamed, hc⟩ := h c List.mem_cons_self
      rw [List.foldl_cons, ih fun d hd => h d (List.mem_cons_of_mem c hd), components_join _ hnamed,
        hc, List.append_assoc]
      rfl

/-- The steps of a path that is made absolute. -/
theorem components_absolute {cwd p a : Path} (h : absolute? cwd p = some a) :
    a.components = if p.isAbsolute then p.components else cwd.components ++ p.tail := by
  unfold absolute? at h
  split at h
  · cases h
  rename_i hp
  have hall (start : Path) : (p.tail.foldl (fun q c => q.join ⟨c.text⟩) start).components =
      start.components ++ p.tail := components_foldl_join (fun c => isNamed_of_mem_tail) start
  rw [filter_components] at h
  have hslash (joined : Path) :
      (if Text.endsWith "/" p.text = true then joined.join ⟨""⟩ else joined).components =
        joined.components := by
    split
    · exact components_join_empty joined
    · rfl
  rw [← Option.some.inj h, hslash, hall]
  have htwo : (Path.mk "//").components = [.root] := by decide
  have hone : (Path.mk "/").components = [.root] := by decide
  cases habsolute : p.isAbsolute with
  | true =>
      rw [if_pos rfl, if_pos rfl, components_of_isAbsolute habsolute]
      split
      · rw [htwo]
        rfl
      · rw [hone]
        rfl
  | false =>
      have hstart : ¬ (Text.startsWith "//" p.text && !Text.startsWith "///" p.text) = true := by
        intro htwice
        rw [isAbsolute_of_startsWith (Bool.and_eq_true_iff.1 htwice).1] at habsolute
        cases habsolute
      rw [if_neg hstart, if_neg Bool.false_ne_true, if_neg Bool.false_ne_true]

theorem isAbsolute_join {p : Path} (hp : p.isAbsolute = true) (q : Path) :
    (p.join q).isAbsolute = true := by
  obtain ⟨rest, hrest⟩ := List.isPrefixOf_iff_prefix.1 hp
  unfold join
  split
  · assumption
  · split
    · refine List.isPrefixOf_iff_prefix.2 ⟨rest ++ q.text.toList, ?_⟩
      rw [String.toList_append, ← hrest, List.append_assoc]
    · refine List.isPrefixOf_iff_prefix.2 ⟨rest ++ '/' :: q.text.toList, ?_⟩
      rw [String.toList_append, String.toList_append, ← hrest]
      simp

/-- A path that is joined to a directory is what it is from the working directory on, if it is
absolute or the directory is the working directory. -/
theorem same_absolute_iff {directory cwd p a : Path} (hdirectory : directory.text ≠ "")
    (h : absolute? cwd p = some a) : (directory.join p).same a = true ↔
      p.isAbsolute = true ∨ directory.components = cwd.components := by
  rw [same_iff, components_absolute h]
  cases habsolute : p.isAbsolute with
  | true => simp [join, habsolute]
  | false =>
      rw [components_join_of_relative hdirectory habsolute, if_neg Bool.false_ne_true,
        List.append_left_inj]
      simp

end Montage.Path
