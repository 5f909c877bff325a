import Montage.Proofs.Lookup
import Montage.Proofs.Template

/-!
# Templates that are resolved twice

Values without `#` and braces bring no placeholder into a template. But where placeholders
resolve to nothing, the text in front of them touches the text behind, and a `#` of the one
with a brace of the other can begin a placeholder that was not there before (`Rejoins`).
That is the only way: a template that is resolved twice comes out as the first time exactly
if its own characters do not rejoin (`substitute_substitute_iff`).
-/

namespace Montage.Template

theorem pieces_cons_cases (c : Char) (cs : List Char) :
    (pieces (c :: cs) = .literal c :: pieces cs ∧
        ∀ rest, c = '#' → cs = '\x7b' :: rest → '\x7d' ∉ rest) ∨
      ∃ key after, c = '#' ∧ cs = '\x7b' :: (key ++ '\x7d' :: after) ∧
        pieces (c :: cs) = .hole key :: pieces after := by
  by_cases hopen : ∃ rest, c = '#' ∧ cs = '\x7b' :: rest
  · obtain ⟨rest, rfl, rfl⟩ := hopen
    cases hsplit : Text.splitFirst? (· == '\x7d') rest with
    | none =>
      refine Or.inl ⟨by rw [pieces, piecesFrom, hsplit]; rfl, ?_⟩
      rintro rest' _ hrest hclosed
      obtain rfl := (List.cons.inj hrest).2
      simpa using Text.splitFirst?_eq_none_iff.1 hsplit _ hclosed
    | some parts =>
      obtain ⟨key, after⟩ := parts
      obtain ⟨hkey, d, hd, rfl⟩ := Text.splitFirst?_eq_some hsplit
      obtain rfl : d = '\x7d' := by simpa using hd
      have hclosed : '\x7d' ∉ key := fun hmem => by simpa using hkey _ hmem
      exact Or.inr ⟨key, after, rfl, rfl, pieces_hole hclosed after⟩
  · exact Or.inl ⟨pieces_cons fun rest hc hcs => hopen ⟨rest, hc, hcs⟩,
      fun rest hc hcs => absurd ⟨rest, hc, hcs⟩ hopen⟩

theorem pieces_eq_map_literal_iff {cs : List Char} :
    pieces cs = cs.map .literal ↔ ∀ a b, cs = a ++ '#' :: '\x7b' :: b → '\x7d' ∉ b := by
  induction cs with
  | nil => simp [pieces]
  | cons c cs ih =>
    rcases pieces_cons_cases c cs with ⟨hpieces, hfirst⟩ | ⟨key, after, rfl, rfl, hpieces⟩
    · rw [hpieces, List.map_cons, List.cons.injEq, eq_self, true_and, ih]
      constructor
      · rintro h (_ | ⟨d, a⟩) b hcs
        · obtain ⟨hc, hcs⟩ := List.cons.inj hcs
          exact hfirst b hc hcs
        · exact h a b (List.cons.inj hcs).2
      · exact fun h a b hcs => h (c :: a) b (congrArg (c :: ·) hcs)
    · refine iff_of_false (by simp [hpieces]) fun h => ?_
      exact h [] (key ++ '\x7d' :: after) rfl (by simp)

variable {params : Parameters}

theorem exists_literal_of_flatMap_resolve {c : Char} (hc : c ≠ ' ')
    (hvalues : ∀ key value : String, params[key]? = some value → c ∉ value.toList)
    {l : List Piece} {a b : List Char} (h : l.flatMap (Piece.resolve params) = a ++ c :: b) :
    ∃ before after, l = before ++ .literal c :: after ∧
      before.flatMap (Piece.resolve params) = a ∧ after.flatMap (Piece.resolve params) = b := by
  induction l generalizing a with
  | nil => simp at h
  | cons piece l ih =>
    rw [List.flatMap_cons] at h
    -- what is in front of `c` covers what the piece resolves to, unless the piece is `c` itself
    rcases List.append_eq_append_iff.1 h with ⟨rest, rfl, hrest⟩ | ⟨rest, hpiece, hrest⟩
    · obtain ⟨before, after, rfl, rfl, rfl⟩ := ih hrest
      exact ⟨piece :: before, after, rfl, rfl, rfl⟩
    · cases rest with
      | nil =>
        obtain ⟨before, after, rfl, hbefore, rfl⟩ := ih (a := []) hrest.symm
        refine ⟨piece :: before, after, rfl, ?_, rfl⟩
        rw [List.flatMap_cons, hbefore, hpiece, List.append_nil, List.append_nil]
      | cons d rest =>
        obtain ⟨rfl, rfl⟩ := List.cons.inj hrest
        cases piece with
        | literal d =>
          have hone := congrArg List.length hpiece
          simp [Piece.resolve] at hone
          obtain ⟨rfl, rfl⟩ : a = [] ∧ rest = [] :=
            ⟨List.length_eq_zero_iff.1 (by omega), List.length_eq_zero_iff.1 (by omega)⟩
          obtain rfl : d = c := by simpa [Piece.resolve] using hpiece
          exact ⟨[], l, rfl, rfl, rfl⟩
        | hole key =>
          have hmem : c ∈ Piece.resolve params (.hole key) := by simp [hpiece]
          exact absurd hmem (not_mem_resolve_hole hc hvalues key)

/-- A `#` of the template touches an opening brace of it as soon as the placeholders between
them are gone, and a closing brace of it stands behind. -/
def Rejoins (params : Parameters) (template : String) : Prop :=
  ∃ before between after,
    pieces template.toList = before ++ .literal '#' :: (between ++ .literal '\x7b' :: after) ∧
      (∀ piece ∈ between, piece.resolve params = []) ∧ .literal '\x7d' ∈ after

theorem isLiteral_substitute_iff
    (hvalues : ∀ key value : String, params[key]? = some value → IsUnmarked value)
    (template : String) :
    IsLiteral (substitute params template) ↔ ¬ Rejoins params template := by
  rw [IsLiteral, substitute, String.toList_ofList, pieces_eq_map_literal_iff, ← not_iff_not, not_not]
  push Not
  constructor
  · rintro ⟨a, b, hresolved, hb⟩
    obtain ⟨before, rest, hpieces, -, hrest⟩ :=
      exists_literal_of_flatMap_resolve (by decide) (fun _ _ h => (hvalues _ _ h).1) hresolved
    obtain ⟨between, after, rfl, hbetween, rfl⟩ :=
      exists_literal_of_flatMap_resolve (a := []) (by decide)
        (fun _ _ h => (hvalues _ _ h).2.1) hrest
    obtain ⟨front, back, hsplit⟩ := List.append_of_mem hb
    obtain ⟨inner, outer, rfl, -, -⟩ :=
      exists_literal_of_flatMap_resolve (by decide) (fun _ _ h => (hvalues _ _ h).2.2) hsplit
    exact ⟨before, between, _, hpieces, List.flatMap_eq_nil_iff.1 hbetween, by simp⟩
  · rintro ⟨before, between, after, hpieces, hbetween, hafter⟩
    refine ⟨before.flatMap (Piece.resolve params), after.flatMap (Piece.resolve params), ?_,
      List.mem_flatMap.2 ⟨_, hafter, by simp [Piece.resolve]⟩⟩
    rw [hpieces, List.flatMap_append, List.flatMap_cons, List.flatMap_append, List.flatMap_cons,
      List.flatMap_eq_nil_iff.2 hbetween]
    rfl

/-- The second time nothing changes exactly if the first time nothing rejoins. -/
theorem substitute_substitute_iff
    (hvalues : ∀ key value : String, params[key]? = some value → IsUnmarked value)
    (template : String) :
    substitute params (substitute params template) = substitute params template ↔
      ¬ Rejoins params template := by
  rw [substitute_eq_self_iff fun _ _ h => (hvalues _ _ h).1, isLiteral_substitute_iff hvalues]

/-- A value stands between the `#` and the brace, though not all placeholders there have one. -/
theorem substitute_substitute_apart :
    let params : Parameters := Std.TreeMap.ofList [("a", "v w"), ("b", "")]
    (∀ key value : String, params[key]? = some value → IsUnmarked value) ∧
      substitute params (substitute params "##\x7bb\x7d#\x7ba\x7d\x7bx\x7d") = "#v w\x7bx\x7d" ∧
      ¬ Rejoins params "##\x7bb\x7d#\x7ba\x7d\x7bx\x7d" := by
  intro params
  have hvalues (key value : String) (h : params[key]? = some value) : IsUnmarked value := by
    rw [getElem?_ofList_eq_some_iff (by grind)] at h
    simp only [List.mem_cons, Prod.mk.injEq, List.not_mem_nil, or_false] at h
    obtain ⟨-, rfl⟩ | ⟨-, rfl⟩ := h <;> decide
  have honce : substitute params "##\x7bb\x7d#\x7ba\x7d\x7bx\x7d" = "#v w\x7bx\x7d" := by
    decide +kernel
  have htwice : substitute params "#v w\x7bx\x7d" = "#v w\x7bx\x7d" := by decide +kernel
  have hsame : substitute params (substitute params "##\x7bb\x7d#\x7ba\x7d\x7bx\x7d") =
      substitute params "##\x7bb\x7d#\x7ba\x7d\x7bx\x7d" := by rw [honce, htwice]
  exact ⟨hvalues, hsame.trans honce, (substitute_substitute_iff hvalues _).1 hsame⟩

/-- A placeholder goes, and what is left and right of it is a placeholder. -/
theorem substitute_substitute_ne :
    let params : Parameters := ∅
    (∀ key value : String, params[key]? = some value → IsUnmarked value) ∧
      substitute params "##\x7bx\x7d\x7by\x7d" = "#\x7by\x7d" ∧
      substitute params (substitute params "##\x7bx\x7d\x7by\x7d") = "" ∧
      substitute params (substitute params "##\x7bx\x7d\x7by\x7d") ≠
        substitute params "##\x7bx\x7d\x7by\x7d" := by
  intro params
  have honce : substitute params "##\x7bx\x7d\x7by\x7d" = "#\x7by\x7d" := by decide +kernel
  have htwice : substitute params "#\x7by\x7d" = "" := by decide +kernel
  rw [honce, htwice]
  exact ⟨by simp [params], rfl, rfl, by decide⟩

end Montage.Template
