import Montage.Proofs.Graph.GraphText

/-!
# Pads and names in filters

Filters are passed on as they are, so a graph may name more than the pads of its clauses.
An opening bracket ends the name in front of it. So if a filter with brackets is followed by
a pad, the names in a clause are the pads that it reads, the names in its filter, and the
pads that it writes (`Clause.named_names_graph`).
-/

namespace Montage

namespace Pad

/-- At an opening bracket a text can be divided without a name getting lost. -/
theorem namesIn_append_cons (a b : List Char) :
    namesIn (a ++ '[' :: b) = namesIn a ++ namesIn ('[' :: b) := by
  induction a with
  | nil => rfl
  | cons c a ih =>
    rw [List.cons_append, namesIn.eq_2 c (a ++ '[' :: b), namesIn.eq_2 c a, ih]
    by_cases hc : c = '['
    · simp only [hc, if_true, List.takeWhile_append, List.dropWhile_append]
      have hparts := List.takeWhile_append_dropWhile (p := fun d => d != '[' && d != ']') (l := a)
      cases hdrop : a.dropWhile (fun d => d != '[' && d != ']') with
      | nil =>
        rw [hdrop, List.append_nil] at hparts
        simp [hparts]
      | cons d rest =>
        have hshort : (a.takeWhile fun d => d != '[' && d != ']').length ≠ a.length := by
          have hlength := congrArg List.length hparts
          rw [hdrop, List.length_append, List.length_cons] at hlength
          omega
        simp only [if_neg hshort, List.isEmpty_cons, Bool.false_eq_true, if_false, List.cons_append]
        -- the character behind the name decides, and that is the same one
        cases a.takeWhile (fun d => d != '[' && d != ']') with
        | nil => rfl
        | cons n ns => by_cases hd : d = ']' <;> simp [hd]
    · rw [if_neg hc, if_neg hc]

theorem names_of_not_mem {s : String} (h : '[' ∉ s.toList) : names s = [] := by
  have hnames := namesIn_append_of_not_mem h []
  rw [List.append_nil] at hnames
  rw [names, hnames]
  rfl

end Pad

namespace Clause

variable {c : Clause}

/-- The clause reads something, all its pads have names, and if its filter has a bracket it
writes something too. -/
structure IsBracketed (c : Clause) : Prop where
  reads_ne_nil : c.reads ≠ []
  named : ∀ p ∈ c.pads, p.IsNamed
  writes_ne_nil : '[' ∈ c.filter.toList → c.writes ≠ []

theorem IsPlain.isBracketed (h : c.IsPlain) : c.IsBracketed :=
  ⟨h.reads_ne_nil, h.named, fun hmem => absurd rfl (h.filter _ hmem).1⟩

def names (c : Clause) : List Pad := c.reads ++ (Pad.names c.filter).map Pad.named ++ c.writes

theorem IsBracketed.named_namesIn_text (h : c.IsBracketed) (b : List Char) :
    ((Pad.namesIn (c.text.toList ++ b)).map fun name => Pad.named (String.ofList name)) =
      c.names ++ (Pad.namesIn b).map fun name => Pad.named (String.ofList name) := by
  by_cases hbracket : '[' ∈ c.filter.toList
  · have hreads : ∀ p ∈ c.reads, p.IsNamed := fun p hp => h.named p (List.mem_append_left _ hp)
    have hwrites : ∀ p ∈ c.writes, p.IsNamed := fun p hp => h.named p (List.mem_append_right _ hp)
    have hrow := Pad.named_namesIn_row hwrites b
    obtain ⟨p, rest, hcons⟩ := List.exists_cons_of_ne_nil (h.writes_ne_nil hbracket)
    obtain ⟨name, _, _, rfl⟩ := hwrites p (hcons ▸ List.mem_cons_self)
    rw [hcons, Pad.toList_row_cons, ← hcons] at hrow
    rw [text, String.toList_append, String.toList_append, List.append_assoc, List.append_assoc,
      Pad.named_namesIn_row hreads, hcons, Pad.toList_row_cons, Pad.namesIn_append_cons,
      List.map_append, hrow, names, Pad.names, List.map_map]
    simp only [List.append_assoc, Function.comp_def]
  · rw [Clause.named_namesIn_text h.named hbracket, names, Pad.names_of_not_mem hbracket, pads]
    simp

/-- The names in a graph are those in its clauses. -/
theorem named_names_graph {cs : List Clause} (h : ∀ c ∈ cs, c.IsBracketed) :
    (Pad.names (";".intercalate (cs.map text))).map Pad.named = cs.flatMap names :=
  named_names_of_forall fun c hc => (h c hc).named_namesIn_text

theorem IsBracketed.text_ne_empty (h : c.IsBracketed) : c.text ≠ "" :=
  Clause.text_ne_empty h.reads_ne_nil h.named

end Clause

end Montage
