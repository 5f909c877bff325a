import Mathlib.Data.List.Infix
import Montage.Proofs.Text.Replacement
import Montage.Template.Arguments
import Montage.Template.Fragment

/-!
# Text that templates leave alone

Resolving placeholders changes a text only where it has some: the texts that stand for
themselves, whatever the parameters are, are those that are made of characters alone
(`isLiteral_iff`), and what is in front of the first `#` stays in any case
(`substitute_append`).

A fragment is put in place once, at its placeholder. The other fragments change
nothing if their placeholders occur neither in the command line nor in what the
fragment makes of it (`expand_placeholder`).
-/

namespace Montage

namespace Template

def IsLiteral (s : String) : Prop := pieces s.toList = s.toList.map .literal

instance (s : String) : Decidable (IsLiteral s) := inferInstanceAs (Decidable (_ = _))

theorem substitute_of_isLiteral {s : String} (h : IsLiteral s) (params : Parameters) :
    substitute params s = s := by
  rw [substitute, h, List.flatMap_map]
  simp [Piece.resolve, List.flatMap_singleton']

theorem pieces_cons {c : Char} {cs : List Char} (h : ∀ rest, c = '#' → cs ≠ '\x7b' :: rest) :
    pieces (c :: cs) = .literal c :: pieces cs := by
  rw [pieces, piecesFrom]
  · rfl
  · exact h

theorem pieces_hole {key : List Char} (h : '\x7d' ∉ key) (after : List Char) :
    pieces ('#' :: '\x7b' :: (key ++ '\x7d' :: after)) = .hole key :: pieces after := by
  rw [pieces, piecesFrom, Text.splitFirst?_append_of_not_mem h]
  simp [piecesFrom_eq_drop]

theorem pieces_append_of_not_mem {a : List Char} (h : '#' ∉ a) (b : List Char) :
    pieces (a ++ b) = a.map .literal ++ pieces b := by
  induction a with
  | nil => rfl
  | cons c a ih =>
    rw [List.mem_cons, not_or] at h
    rw [List.cons_append, pieces_cons fun _ hc => absurd hc.symm h.1, ih h.2]
    rfl

/-- Text without the character that begins a placeholder stays in front. -/
theorem substitute_append {a : String} (h : '#' ∉ a.toList) (params : Parameters) (b : String) :
    substitute params (a ++ b) = a ++ substitute params b := by
  rw [substitute, substitute, String.toList_append, pieces_append_of_not_mem h,
    List.flatMap_append, List.flatMap_map, String.ofList_append]
  simp [Piece.resolve, List.flatMap_singleton']

theorem isLiteral_of_not_mem {s : String} (h : '#' ∉ s.toList) : IsLiteral s := by
  have hpieces := pieces_append_of_not_mem h []
  rw [List.append_nil] at hpieces
  rw [IsLiteral, hpieces]
  exact List.append_nil _

def IsUnmarked (s : String) : Prop :=
  '#' ∉ s.toList ∧ '\x7b' ∉ s.toList ∧ '\x7d' ∉ s.toList

instance (s : String) : Decidable (IsUnmarked s) := inferInstanceAs (Decidable (_ ∧ _))

theorem toList_placeholder (key : String) :
    (placeholder key).toList = '#' :: '\x7b' :: (key.toList ++ ['\x7d']) := by
  simp [placeholder]

variable {params : Parameters}

theorem not_mem_resolve_hole {c : Char} (hc : c ≠ ' ')
    (hvalues : ∀ key value : String, params[key]? = some value → c ∉ value.toList) (key : List Char) :
    c ∉ Piece.resolve params (.hole key) := by
  rw [Piece.resolve]
  cases hvalue : params[String.ofList key]? with
  | some value => exact hvalues _ _ hvalue
  | none =>
    simp only
    split <;> simp [hc]

/-- Where no value has a `#`, each placeholder takes one away. -/
theorem resolve_pieces_cases
    (hvalues : ∀ key value : String, params[key]? = some value → '#' ∉ value.toList)
    (skip : Nat) (cs : List Char) :
    piecesFrom skip cs = (cs.drop skip).map .literal ∨
      ((piecesFrom skip cs).flatMap (Piece.resolve params)).count '#' <
        (cs.drop skip).count '#' := by
  fun_induction piecesFrom skip cs with
  | case1 => simp
  | case2 skip c cs ih => simpa using ih
  | case3 rest key after hkey ih =>
    right
    obtain ⟨_, d, _, rfl⟩ := Text.splitFirst?_eq_some hkey
    have hgone : (Piece.resolve params (.hole key)).count '#' = 0 :=
      List.count_eq_zero.2 (not_mem_resolve_hole (by decide) hvalues key)
    have hle : ((piecesFrom (key.length + 2) ('\x7b' :: (key ++ d :: after))).flatMap
        (Piece.resolve params)).count '#' ≤
          (('\x7b' :: (key ++ d :: after)).drop (key.length + 2)).count '#' := by
      rcases ih with ih | ih
      · rw [ih]
        simp [List.flatMap_map, Piece.resolve, List.flatMap_singleton']
      · exact ih.le
    simp [List.count_cons] at hle ⊢
    omega
  | case4 rest hkey ih | case5 c cs hc ih =>
    rcases ih with ih | ih
    · left
      simp at ih
      simp [ih]
    · right
      simp [Piece.resolve, List.count_cons] at ih ⊢
      omega

/-- Where no value has a `#`, only texts without placeholders come out as they were. -/
theorem substitute_eq_self_iff
    (hvalues : ∀ key value : String, params[key]? = some value → '#' ∉ value.toList) {s : String} :
    substitute params s = s ↔ IsLiteral s := by
  refine ⟨fun h => ?_, fun h => substitute_of_isLiteral h params⟩
  have hlist : (pieces s.toList).flatMap (Piece.resolve params) = s.toList := by
    rw [← String.toList_ofList (l := (pieces s.toList).flatMap (Piece.resolve params))]
    exact congrArg String.toList h
  rcases resolve_pieces_cases hvalues 0 s.toList with hliteral | hlt
  · exact hliteral
  · rw [List.drop_zero] at hlt
    have hcount := congrArg (List.count '#') hlist
    exact absurd hcount hlt.ne

theorem isLiteral_iff {s : String} : IsLiteral s ↔ ∀ params, substitute params s = s :=
  ⟨substitute_of_isLiteral, fun h => (substitute_eq_self_iff (by simp)).1 (h ∅)⟩

theorem length_resolve_pieces_le (skip : Nat) (cs : List Char) :
    ((piecesFrom skip cs).flatMap (Piece.resolve ∅)).length ≤ (cs.drop skip).length := by
  fun_induction piecesFrom skip cs with
  | case1 => simp
  | case2 skip c cs ih => simpa using ih
  | case3 rest key after hkey ih =>
    obtain ⟨_, d, _, rfl⟩ := Text.splitFirst?_eq_some hkey
    have hgone : (Piece.resolve ∅ (.hole key)).length ≤ 1 := by
      rw [Piece.resolve, Std.TreeMap.getElem?_emptyc]
      dsimp only
      split <;> simp
    simp at ih ⊢
    omega
  | case4 rest hkey ih | case5 c cs hc ih =>
    simp [Piece.resolve] at ih ⊢
    exact ih

theorem length_substitute_empty_le (s : String) :
    (substitute ∅ s).toList.length ≤ s.toList.length := by
  rw [substitute, String.toList_ofList]
  exact length_resolve_pieces_le 0 s.toList

theorem fragmentKey_injective : Function.Injective fragmentKey := fun _ _ h =>
  (String.append_right_inj _).1 h

theorem dropStart?_fragmentKey {key name : String} :
    Text.dropStart? (fragmentKey "") key = some name ↔ key = fragmentKey name := by
  rw [Text.dropStart?_eq_some_iff, fragmentKey, fragmentKey, String.append_empty]

theorem mem_fragments_iff {name value : String} :
    (name, value) ∈ fragments params ↔ params[fragmentKey name]? = some value := by
  rw [← Std.TreeMap.mem_toList_iff_getElem?_eq_some, fragments, List.mem_filterMap]
  constructor
  · rintro ⟨⟨key, value⟩, hmem, hname⟩
    obtain ⟨name, hkey, heq⟩ := Option.map_eq_some_iff.1 hname
    obtain ⟨rfl, rfl⟩ := Prod.mk.inj heq
    rwa [← dropStart?_fragmentKey.1 hkey]
  · intro hmem
    exact ⟨_, hmem, Option.map_eq_some_iff.2 ⟨name, dropStart?_fragmentKey.2 rfl, rfl⟩⟩

theorem ordered_fragments (params : Parameters) : (fragments params).Pairwise
    fun a b => compare (fragmentKey a.1) (fragmentKey b.1) = .lt := by
  apply Std.TreeMap.ordered_keys_toList.filterMap
  rintro ⟨key, value⟩ ⟨key', value'⟩ hlt a ha b hb
  obtain ⟨name, hkey, rfl⟩ := Option.map_eq_some_iff.1 ha
  obtain ⟨name', hkey', rfl⟩ := Option.map_eq_some_iff.1 hb
  rwa [dropStart?_fragmentKey.1 hkey, dropStart?_fragmentKey.1 hkey'] at hlt

theorem pairwise_fragments (params : Parameters) :
    (fragments params).Pairwise fun a b => a.1 ≠ b.1 := by
  apply (ordered_fragments params).imp
  intro a b hlt hname
  have hsame : compare (fragmentKey a.1) (fragmentKey b.1) = .eq :=
    Std.LawfulEqCmp.compare_eq_iff_eq.2 (congrArg fragmentKey hname)
  rw [hlt] at hsame
  cases hsame

theorem nodup_fragments (params : Parameters) : (fragments params).Nodup :=
  (pairwise_fragments params).imp fun hne heq => hne (congrArg Prod.fst heq)

/-- Which fragments there are, and in which order, is decided by the fragments alone. -/
theorem fragments_congr {params' : Parameters}
    (h : ∀ name, params'[fragmentKey name]? = params[fragmentKey name]?) :
    fragments params' = fragments params := by
  refine List.Perm.eq_of_pairwise (fun a b _ _ hab hba => ?_) (ordered_fragments params')
    (ordered_fragments params) ?_
  · exact absurd hba (Std.OrientedCmp.not_lt_of_lt hab)
  · rw [List.perm_ext_iff_of_nodup (nodup_fragments params') (nodup_fragments params)]
    rintro ⟨name, value⟩
    rw [mem_fragments_iff, mem_fragments_iff, h]

theorem fragments_eq_singleton {name value : String}
    (hvalue : params[fragmentKey name]? = some value)
    (honly : ∀ other, fragmentKey other ∈ params → other = name) :
    fragments params = [(name, value)] := by
  rw [← List.perm_singleton,
    List.perm_ext_iff_of_nodup (nodup_fragments params) (by simp)]
  rintro ⟨other, value'⟩
  rw [mem_fragments_iff, List.mem_singleton]
  constructor
  · intro hother
    obtain rfl : other = name := by
      apply honly
      rw [Std.TreeMap.mem_iff_isSome_getElem?, hother]
      rfl
    rw [Option.some.inj (hother.symm.trans hvalue)]
  · rintro ⟨⟩
    exact hvalue

theorem expand_congr {params' : Parameters}
    (h : ∀ name, params'[fragmentKey name]? = params[fragmentKey name]?) (line : String) :
    expand params' line = expand params line := by
  rw [expand, expand, fragments_congr h]

/-- No fragment but the one with this name has a placeholder in the text. -/
def OnlyFragment (params : Parameters) (name line : String) : Prop :=
  ∀ other, other ≠ name → fragmentKey other ∈ params →
    ¬ (placeholder other).toList <:+: line.toList

theorem foldl_splice_of_not_infix {line : String} {all : List (String × String)}
    (h : ∀ f ∈ all, ¬ (placeholder f.1).toList <:+: line.toList) :
    all.foldl splice line = line := by
  induction all with
  | nil => rfl
  | cons f all ih =>
    rw [List.foldl_cons, splice, Text.replaced_of_not_infix (h f List.mem_cons_self)]
    exact ih fun g hg => h g (List.mem_cons_of_mem _ hg)

/-- A fragment in front of a command line takes the place of its placeholder, and
nothing else happens. -/
theorem expand_placeholder {name value rest : String}
    (hvalue : params[fragmentKey name]? = some value)
    (hrest : ¬ (placeholder name).toList <:+: rest.toList)
    (hbefore : OnlyFragment params name (placeholder name ++ rest))
    (hafter : OnlyFragment params name (value ++ rest)) :
    expand params (placeholder name ++ rest) = value ++ rest := by
  obtain ⟨before, after, hsplit⟩ := List.append_of_mem (mem_fragments_iff.2 hvalue)
  have hnames := pairwise_fragments params
  rw [hsplit, List.pairwise_append] at hnames
  obtain ⟨_, hcons, hapart⟩ := hnames
  have hmem : ∀ f ∈ before ++ after, fragmentKey f.1 ∈ params := by
    intro f hf
    have hfragment : f ∈ fragments params := by
      rw [hsplit]
      grind
    rw [Std.TreeMap.mem_iff_isSome_getElem?, mem_fragments_iff.1 hfragment]
    rfl
  have hleft : before.foldl splice (placeholder name ++ rest) = placeholder name ++ rest := by
    apply foldl_splice_of_not_infix
    intro f hf
    have hne := hapart f hf _ List.mem_cons_self
    exact hbefore f.1 hne (hmem f (List.mem_append_left _ hf))
  have hright : after.foldl splice (value ++ rest) = value ++ rest := by
    apply foldl_splice_of_not_infix
    intro f hf
    have hne := (List.pairwise_cons.1 hcons).1 f hf
    exact hafter f.1 (Ne.symm hne) (hmem f (List.mem_append_right _ hf))
  rw [expand, hsplit, List.foldl_append, hleft, List.foldl_cons, splice,
    Text.replaced_append (by simp [placeholder]), Text.replaced_of_not_infix hrest, hright]

end Template

end Montage
