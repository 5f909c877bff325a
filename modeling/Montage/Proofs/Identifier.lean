import Montage.Identifier
import Montage.Proofs.Text.Search

/-!
# Identifiers in texts

All identifiers are equally long and hold no underscore. So where a text is made for an
identifier, by writing it behind an underscore in some places, the places cannot overlap
with those of another identifier, and the text for one identifier is no text for another
that does not occur in it anyway (`written_ne`).
-/

namespace Montage

namespace Text

variable {c : Char} {w block a b : List Char}

/-- A word behind a mark begins where the text begins, or else ends in front of the next
mark. -/
theorem eq_or_prefix_of_cons_append_eq (hw : c ∉ w) (h : c :: (w ++ a) = b ++ c :: block) :
    (b = [] ∧ w ++ a = block) ∨ c :: w <+: b := by
  cases b with
  | nil => exact Or.inl ⟨rfl, (List.cons.inj h).2⟩
  | cons d b =>
    obtain ⟨rfl, htail⟩ := List.cons.inj h
    refine Or.inr (List.cons_prefix_cons.2 ⟨rfl, (prefix_append_cons_iff (b := block) hw).1 ?_⟩)
    exact ⟨a, htail⟩

/-- Behind marks that occur in neither, a word does not overlap with a block of its length. -/
theorem eq_or_infix_of_infix_append (hw : c ∉ w) (hblock : c ∉ block)
    (hlength : w.length = block.length) (h : c :: w <:+: a ++ (c :: block ++ b)) :
    w = block ∨ c :: w <:+: a ∨ c :: w <:+: b := by
  obtain ⟨x, y, h⟩ := h
  simp only [List.append_assoc, List.cons_append] at h
  rcases List.append_eq_append_iff.1 h with ⟨z, rfl, hz⟩ | ⟨z, rfl, hz⟩
  · rcases eq_or_prefix_of_cons_append_eq hw hz with ⟨_, heq⟩ | hstart
    · exact Or.inl (List.append_inj_left heq hlength)
    · exact Or.inr (Or.inl (hstart.isInfix.trans (List.suffix_append x z).isInfix))
  · rcases eq_or_prefix_of_cons_append_eq hblock hz with ⟨_, heq⟩ | ⟨rest, rfl⟩
    · exact Or.inl (List.append_inj_left heq hlength.symm).symm
    · refine Or.inr (Or.inr ⟨rest, y, ?_⟩)
      simpa using hz.symm

end Text

namespace Identifier

structure IsIdentifier (id : String) : Prop where
  length_eq : id.toList.length = 36
  not_mem : '_' ∉ id.toList

theorem length_hexDigits (count n : Nat) : (hexDigits count n).toList.length = count := by
  simp [hexDigits]

theorem not_mem_hexDigits (count n : Nat) : '_' ∉ (hexDigits count n).toList := by
  have hdigit : ∀ digit < 16, (Nat.toDigits 16 digit).headD '0' ≠ '_' := by decide
  simp only [hexDigits, String.toList_ofList, List.mem_map, not_exists, not_and]
  exact fun _ _ => hdigit _ (Nat.mod_lt _ (by decide))

theorem isIdentifier_groups (a b c d e : Nat) :
    IsIdentifier ("-".intercalate [hexDigits 8 a, hexDigits 4 b, "4" ++ hexDigits 3 c,
      hexDigits 4 d, hexDigits 12 e]) where
  length_eq := by simp [String.intercalate_cons_cons, length_hexDigits]
  not_mem := by simp [String.intercalate_cons_cons, not_mem_hexDigits]

theorem isIdentifier_ofNumber (n : Nat) : IsIdentifier (ofNumber n) := isIdentifier_groups ..

theorem isIdentifier_fresh (start k : Nat) : IsIdentifier (fresh start k) :=
  isIdentifier_ofNumber (start + k)

/-- A piece of a text that is made for an identifier. -/
inductive Segment where
  | text (cs : List Char)
  /-- The identifier behind an underscore. -/
  | mark
  deriving DecidableEq

def Segment.write (id : String) : Segment → List Char
  | text cs => cs
  | mark => '_' :: id.toList

def written (id : String) (segments : List Segment) : List Char :=
  segments.flatMap (Segment.write id)

theorem mark_infix_written {segments : List Segment} (h : .mark ∈ segments) (id : String) :
    '_' :: id.toList <:+: written id segments := by
  obtain ⟨front, rest, rfl⟩ := List.append_of_mem h
  exact ⟨written id front, written id rest, by simp [written, Segment.write]⟩

variable {id other : String}

/-- An identifier occurs in the text for another only where it occurs anyway. -/
theorem infix_written (hid : IsIdentifier id) (hother : IsIdentifier other) (hne : id ≠ other)
    {front : List Char} {segments : List Segment}
    (h : '_' :: id.toList <:+: front ++ written other segments) :
    '_' :: id.toList <:+: front ++ written "" segments := by
  induction segments generalizing front with
  | nil => exact h
  | cons segment segments ih =>
    cases segment with
    | text cs =>
      have hstep (x : String) : front ++ written x (.text cs :: segments) =
          (front ++ cs) ++ written x segments := (List.append_assoc ..).symm
      rw [hstep] at h ⊢
      exact ih h
    | mark =>
      have hstep (x : String) : front ++ written x (.mark :: segments) =
          front ++ ('_' :: x.toList ++ written x segments) := rfl
      rw [hstep] at h ⊢
      have hlength := hid.length_eq.trans hother.length_eq.symm
      rcases Text.eq_or_infix_of_infix_append hid.not_mem hother.not_mem hlength h with
        heq | hfront | hrest
      · exact absurd (String.toList_inj.1 heq) hne
      · exact hfront.trans (List.prefix_append front _).isInfix
      · have hanyway : '_' :: id.toList <:+: [] ++ written "" segments := ih hrest
        exact hanyway.trans ((List.suffix_append _ _).trans (List.suffix_append front _)).isInfix

/-- A text that holds its identifier is no text for another one, where that identifier does
not occur anyway. -/
theorem written_ne (hid : IsIdentifier id) (hother : IsIdentifier other) (hne : id ≠ other)
    {segments more : List Segment} (hmark : .mark ∈ segments)
    (hfresh : ¬ id.toList <:+: written "" more) : written id segments ≠ written other more := by
  intro heq
  have hinfix := mark_infix_written hmark id
  rw [heq] at hinfix
  have hanyway : '_' :: id.toList <:+: [] ++ written "" more := infix_written hid hother hne hinfix
  exact hfresh ((List.suffix_cons '_' _).isInfix.trans hanyway)

end Identifier

end Montage
