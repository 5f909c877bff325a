import Montage.Proofs.Graph.PadName
import Montage.Proofs.Numeral
import Montage.Proofs.Text.Split

/-!
# Reading a graph back from its text

An encoder gets a graph as text and finds the clauses at semicolons and the pads
at brackets. Filters are written by others, so they may use these characters
themselves; `IsPlain` says that a text does not. If all filters are plain, the
text can be cut at its semicolons into the clauses (`Text.split_intercalate`),
and the names in each of them are its pads (`Clause.IsPlain.isLegible`).
-/

namespace Montage

/-- The text has none of the characters that divide a graph. -/
def IsPlain (s : String) : Prop := ∀ c ∈ s.toList, c ≠ '[' ∧ c ≠ ']' ∧ c ≠ ';'

instance (s : String) : Decidable (IsPlain s) :=
  List.decidableBAll (fun c => c ≠ '[' ∧ c ≠ ']' ∧ c ≠ ';') s.toList

theorem isPlain_append_iff {a b : String} : IsPlain (a ++ b) ↔ IsPlain a ∧ IsPlain b := by
  unfold IsPlain
  rw [String.toList_append, List.forall_mem_append]

theorem IsPlain.append {a b : String} (ha : IsPlain a) (hb : IsPlain b) : IsPlain (a ++ b) :=
  isPlain_append_iff.2 ⟨ha, hb⟩

theorem IsNumeral.isPlain {s : String} (h : IsNumeral s) : IsPlain s := fun _ hc =>
  ⟨h.ne hc (by decide), h.ne hc (by decide), h.ne hc (by decide)⟩

theorem isPlain_toString (i : Nat) : IsPlain (toString i) := (isNumeral_toString i).isPlain

theorem isPlain_clauseSeconds (seconds : Float) : IsPlain (clauseSeconds seconds) :=
  (isNumeral_fixed 2 _).isPlain

theorem isPlain_mark (kind : StreamKind) : IsPlain kind.mark := by cases kind <;> decide

def Pad.IsNamed (p : Pad) : Prop := ∃ name, name ≠ "" ∧ IsPlain name ∧ p = .named name

theorem EditPad.isNamed_toPad (k : EditPad) : k.toPad.IsNamed := by
  refine ⟨String.ofList k.chars, ?_, ?_, rfl⟩
  · cases k <;> simp [chars]
  · apply IsNumeral.isPlain
    apply isNumeral_of_isAlphanum
    rw [String.toList_ofList]
    exact k.isAlphanum_of_mem_chars

theorem Pad.isNamed_stream (i : Nat) (kind : StreamKind) : (stream i kind.letter).IsNamed := by
  refine ⟨toString i ++ ":" ++ kind.letter.toString, ?_, ?_, rfl⟩
  · intro h
    have hlist := congrArg String.toList h
    simp at hlist
  · refine ((isPlain_toString i).append (by decide)).append ?_
    cases kind <;> decide

namespace Pad

theorem namesIn_append_of_not_mem {a : List Char} (h : '[' ∉ a) (b : List Char) :
    namesIn (a ++ b) = namesIn b := by
  induction a with
  | nil => rfl
  | cons c a ih =>
      rw [List.mem_cons, not_or] at h
      rw [List.cons_append, namesIn, if_neg (Ne.symm h.1)]
      exact ih h.2

theorem namesIn_pad {name : List Char} (hne : name ≠ [])
    (hplain : ∀ c ∈ name, c ≠ '[' ∧ c ≠ ']') (b : List Char) :
    namesIn ('[' :: (name ++ ']' :: b)) = name :: namesIn b := by
  have hinside : ∀ c ∈ name, (c != '[' && c != ']') = true := by
    intro c hc
    simp [hplain c hc]
  have htake := Text.takeWhile_append_cons hinside (c := ']') (by decide) b
  have hdrop := Text.dropWhile_append_cons hinside (c := ']') (by decide) b
  have hrest : namesIn (name ++ ']' :: b) = namesIn b := by
    have hnot : '[' ∉ name ++ [']'] := by
      intro hmem
      rcases List.mem_append.1 hmem with hmem | hmem
      · exact (hplain _ hmem).1 rfl
      · exact absurd hmem (by decide)
    have happend := namesIn_append_of_not_mem hnot b
    rw [List.append_assoc] at happend
    exact happend
  obtain ⟨n, ns, rfl⟩ := List.exists_cons_of_ne_nil hne
  rw [namesIn, if_pos rfl]
  simp only [htake, hdrop, hrest]

theorem toList_row_cons (name : String) (pads : List Pad) (b : List Char) :
    (row (named name :: pads)).toList ++ b =
      '[' :: (name.toList ++ ']' :: ((row pads).toList ++ b)) := by
  simp [row, named]

theorem named_namesIn_row {pads : List Pad} (h : ∀ p ∈ pads, p.IsNamed) (b : List Char) :
    ((namesIn ((row pads).toList ++ b)).map fun name => named (String.ofList name)) =
      pads ++ (namesIn b).map fun name => named (String.ofList name) := by
  induction pads with
  | nil => simp [row]
  | cons p pads ih =>
      obtain ⟨name, hne, hplain, rfl⟩ := h p List.mem_cons_self
      have hlist : name.toList ≠ [] := by simpa using hne
      have hname : ∀ c ∈ name.toList, c ≠ '[' ∧ c ≠ ']' := by
        intro c hc
        exact ⟨(hplain c hc).1, (hplain c hc).2.1⟩
      rw [toList_row_cons, namesIn_pad hlist hname, List.map_cons, String.ofList_toList,
        ih fun q hq => h q (List.mem_cons_of_mem _ hq), List.cons_append]

theorem semicolon_not_mem_row {pads : List Pad} (h : ∀ p ∈ pads, p.IsNamed) :
    ';' ∉ (row pads).toList := by
  induction pads with
  | nil => simp [row]
  | cons p pads ih =>
      obtain ⟨name, _, hplain, rfl⟩ := h p List.mem_cons_self
      have hname : ';' ∉ name.toList := fun hmem => (hplain _ hmem).2.2 rfl
      have hrest := ih fun q hq => h q (List.mem_cons_of_mem _ hq)
      have hcons := toList_row_cons name pads []
      rw [List.append_nil, List.append_nil] at hcons
      rw [hcons]
      simp [hname, hrest]

end Pad

namespace Clause

/-- The clause reads something, all its pads have names, and its filter is plain. -/
structure IsPlain (c : Clause) : Prop where
  reads_ne_nil : c.reads ≠ []
  named : ∀ p ∈ c.reads ++ c.writes, p.IsNamed
  filter : Montage.IsPlain c.filter

variable {c : Clause}

def pads (c : Clause) : List Pad := c.reads ++ c.writes

theorem named_namesIn_text (hnamed : ∀ p ∈ c.pads, p.IsNamed) (hfilter : '[' ∉ c.filter.toList)
    (b : List Char) :
    ((Pad.namesIn (c.text.toList ++ b)).map fun name => Pad.named (String.ofList name)) =
      c.pads ++ (Pad.namesIn b).map fun name => Pad.named (String.ofList name) := by
  have hreads : ∀ p ∈ c.reads, p.IsNamed := fun p hp => hnamed p (List.mem_append_left _ hp)
  have hwrites : ∀ p ∈ c.writes, p.IsNamed := fun p hp => hnamed p (List.mem_append_right _ hp)
  rw [text, String.toList_append, String.toList_append, List.append_assoc, List.append_assoc,
    Pad.named_namesIn_row hreads, Pad.namesIn_append_of_not_mem hfilter,
    Pad.named_namesIn_row hwrites, pads, List.append_assoc]

/-- The text of the clause is its filter between the pads that it reads and those that it writes,
and the names in it are these pads. -/
structure IsLegible (c : Clause) : Prop where
  text : c.text =
    String.join (c.reads.map Pad.text) ++ c.filter ++ String.join (c.writes.map Pad.text)
  names : (Pad.names c.text).map Pad.named = c.reads ++ c.writes

theorem isLegible (hnamed : ∀ p ∈ c.pads, p.IsNamed) (hfilter : '[' ∉ c.filter.toList) :
    c.IsLegible := by
  have hnames := named_namesIn_text hnamed hfilter []
  rw [List.append_nil] at hnames
  refine ⟨rfl, ?_⟩
  rw [Pad.names, List.map_map]
  show (Pad.namesIn _).map (fun name => Pad.named (String.ofList name)) = _
  rw [hnames]
  simp [Pad.namesIn, pads]

theorem IsPlain.isLegible (h : c.IsPlain) : c.IsLegible :=
  Clause.isLegible h.named fun hmem => (h.filter _ hmem).1 rfl

/-- If the names of each clause are known, whatever is behind it, then so are those of the graph. -/
theorem named_names_of_forall {cs : List Clause} {f : Clause → List Pad}
    (h : ∀ c ∈ cs, ∀ b,
      ((Pad.namesIn (c.text.toList ++ b)).map fun name => Pad.named (String.ofList name)) =
        f c ++ (Pad.namesIn b).map fun name => Pad.named (String.ofList name)) :
    (Pad.names (";".intercalate (cs.map text))).map Pad.named = cs.flatMap f := by
  rw [Pad.names, List.map_map]
  show (Pad.namesIn _).map (fun name => Pad.named (String.ofList name)) = _
  induction cs with
  | nil => rfl
  | cons c cs ih =>
      have hfirst := h c List.mem_cons_self
      have hrest := ih fun d hd => h d (List.mem_cons_of_mem _ hd)
      cases cs with
      | nil =>
          have hnames := hfirst []
          rw [List.append_nil] at hnames
          rw [List.map_singleton, String.intercalate_singleton, hnames]
          simp [Pad.namesIn]
      | cons d cs =>
          have htext : (";".intercalate ((c :: d :: cs).map text)).toList =
              c.text.toList ++ ([';'] ++ (";".intercalate ((d :: cs).map text)).toList) := by
            simp [String.intercalate_cons_cons]
          rw [htext, hfirst, Pad.namesIn_append_of_not_mem (by decide), hrest]
          rfl

theorem named_names_intercalate {cs : List Clause} (hnamed : ∀ c ∈ cs, ∀ p ∈ c.pads, p.IsNamed)
    (hfilter : ∀ c ∈ cs, '[' ∉ c.filter.toList) :
    (Pad.names (";".intercalate (cs.map text))).map Pad.named = cs.flatMap pads :=
  named_names_of_forall fun c hc => named_namesIn_text (hnamed c hc) (hfilter c hc)

theorem semicolon_not_mem_text (hnamed : ∀ p ∈ c.pads, p.IsNamed)
    (hfilter : ';' ∉ c.filter.toList) : ';' ∉ c.text.toList := by
  have hreads := Pad.semicolon_not_mem_row fun p hp => hnamed p (List.mem_append_left _ hp)
  have hwrites := Pad.semicolon_not_mem_row fun p hp => hnamed p (List.mem_append_right _ hp)
  simp [text, hreads, hwrites, hfilter]

theorem IsPlain.semicolon_not_mem_text (h : c.IsPlain) : ';' ∉ c.text.toList :=
  Clause.semicolon_not_mem_text h.named fun hmem => (h.filter _ hmem).2.2 rfl

theorem text_ne_empty (hreads : c.reads ≠ []) (hnamed : ∀ p ∈ c.pads, p.IsNamed) :
    c.text ≠ "" := by
  obtain ⟨p, reads, hcons⟩ := List.exists_cons_of_ne_nil hreads
  obtain ⟨name, _, _, rfl⟩ := hnamed p (by simp [pads, hcons])
  intro hempty
  have hlist := congrArg String.toList hempty
  simp [text, hcons, Pad.row, Pad.named] at hlist

theorem IsPlain.text_ne_empty (h : c.IsPlain) : c.text ≠ "" :=
  Clause.text_ne_empty h.reads_ne_nil h.named

end Clause

end Montage
