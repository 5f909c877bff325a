import Mathlib.Algebra.Order.Group.Multiset
import Montage.Proofs.Graph.PadName

/-!
# Threading pads through clauses

A pad that a clause writes is open until something reads it, and reading it uses
it up. `Threads before cs after` says that the clauses `cs`, run in order, start
from the open pads `before` and leave the open pads `after`. Streams of input
files are not used up, so a clause may read them at any time.

`Threads` composes along a graph (`Threads.append`) and leaves other open pads
alone (`Threads.frame`), so each part of a graph is threaded on its own. What it
says about a whole graph is `Threads.count_add`: nothing is lost and nothing is
read twice. `Wired` is the statement in terms of the written graph alone, and
`Threads.wired` derives it.
-/

namespace Montage

/-- The clauses in order, between the pads that are open before and after them. -/
inductive Threads : Multiset Pad → List Clause → Multiset Pad → Prop where
  | nil (pads : Multiset Pad) : Threads pads [] pads
  | cons {before after : Multiset Pad} {c : Clause} {cs : List Clause}
      (sources taken rest : Multiset Pad) (hbefore : before = taken + rest)
      (hreads : (c.reads : Multiset Pad) = sources + taken)
      (hsources : ∀ p ∈ sources, p.IsSource)
      (hrest : Threads (rest + c.writes) cs after) : Threads before (c :: cs) after

namespace Threads

variable {a b c : Multiset Pad} {cs ds : List Clause}

theorem frame (h : Threads a cs b) (others : Multiset Pad) :
    Threads (a + others) cs (b + others) := by
  induction h with
  | nil pads => exact nil _
  | cons sources taken rest hbefore hreads hsources _ ih =>
      refine cons sources taken (rest + others) ?_ hreads hsources ?_
      · rw [hbefore, add_assoc]
      · rw [add_right_comm]
        exact ih

theorem frame_cons {xs ys : List Pad} (h : Threads xs cs ys) (p : Pad) :
    Threads (p :: xs : List Pad) cs (p :: ys : List Pad) := by
  have hframe := h.frame ([p] : List Pad)
  rw [add_comm (xs : Multiset Pad), add_comm (ys : Multiset Pad)] at hframe
  exact hframe

theorem append (h : Threads a cs b) (h' : Threads b ds c) : Threads a (cs ++ ds) c := by
  induction h with
  | nil pads => exact h'
  | cons sources taken rest hbefore hreads hsources _ ih =>
      exact cons sources taken rest hbefore hreads hsources (ih h')

theorem exists_of_append (h : Threads a (cs ++ ds) c) : ∃ b, Threads a cs b ∧ Threads b ds c := by
  induction cs generalizing a with
  | nil => exact ⟨a, nil a, h⟩
  | cons c cs ih =>
      cases h with
      | cons sources taken rest hbefore hreads hsources hrest =>
          obtain ⟨b, hfirst, hsecond⟩ := ih hrest
          exact ⟨b, cons sources taken rest hbefore hreads hsources hfirst, hsecond⟩

/-- Clauses that read streams of inputs only leave open what they write. -/
theorem of_sources (h : ∀ c ∈ cs, ∀ p ∈ c.reads, p.IsSource) (a : Multiset Pad) :
    Threads a cs (a + (cs.flatMap Clause.writes : List Pad)) := by
  induction cs generalizing a with
  | nil => simpa using nil a
  | cons c cs ih =>
      have hrest := ih (fun d hd => h d (List.mem_cons_of_mem c hd)) (a + c.writes)
      rw [add_assoc, Multiset.coe_add, ← List.flatMap_cons] at hrest
      refine cons c.reads 0 a (zero_add a).symm (add_zero _).symm ?_ hrest
      intro p hp
      exact h c List.mem_cons_self p hp

theorem of_reads (cs : List Clause) :
    Threads (cs.flatMap Clause.reads : List Pad) cs (cs.flatMap Clause.writes : List Pad) := by
  induction cs with
  | nil => exact nil _
  | cons c cs ih =>
      have hrest := ih.frame c.writes
      rw [add_comm (cs.flatMap Clause.writes : Multiset Pad), Multiset.coe_add (c.writes),
        ← List.flatMap_cons] at hrest
      refine cons 0 c.reads (cs.flatMap Clause.reads : List Pad) ?_ (zero_add _).symm (by simp) hrest
      rw [List.flatMap_cons, Multiset.coe_add]

/-- A pad is open before or written as often as it is read or open after. -/
theorem count_add (h : Threads a cs b) {p : Pad} (hp : ¬ p.IsSource) :
    a.count p + (cs.flatMap Clause.writes).count p =
      (cs.flatMap Clause.reads).count p + b.count p := by
  induction h with
  | nil pads => simp
  | @cons before after c cs sources taken rest hbefore hreads hsources _ ih =>
      have hnone : sources.count p = 0 := Multiset.count_eq_zero.2 fun hmem => hp (hsources p hmem)
      have hcount := congrArg (Multiset.count p) hreads
      rw [Multiset.coe_count, Multiset.count_add, hnone, Nat.zero_add] at hcount
      rw [Multiset.count_add, Multiset.coe_count] at ih
      rw [hbefore, Multiset.count_add, List.flatMap_cons, List.flatMap_cons, List.count_append,
        List.count_append, hcount]
      omega

theorem mem_or_written_of_reads {cs ds : List Clause} {c : Clause} {p : Pad}
    (h : Threads a (cs ++ c :: ds) b) (hread : p ∈ c.reads) (hp : ¬ p.IsSource) :
    p ∈ a ∨ ∃ w ∈ cs, p ∈ w.writes := by
  obtain ⟨m, hfirst, hsecond⟩ := h.exists_of_append
  have hopen : p ∈ m := by
    cases hsecond with
    | cons sources taken rest hbefore hreads hsources hrest =>
        have hmem : p ∈ sources + taken := by
          rw [← hreads]
          exact hread
        rcases Multiset.mem_add.1 hmem with hsource | htaken
        · exact absurd (hsources p hsource) hp
        · rw [hbefore]
          exact Multiset.mem_add.2 (Or.inl htaken)
  have hcount := hfirst.count_add hp
  have hpos := Multiset.count_pos.2 hopen
  by_cases hbefore : p ∈ a
  · exact Or.inl hbefore
  · right
    rw [Multiset.count_eq_zero.2 hbefore] at hcount
    have hwritten : 0 < (cs.flatMap Clause.writes).count p := by omega
    exact List.mem_flatMap.1 (List.count_pos_iff.1 hwritten)

end Threads

/-- The clauses and the values of the `-map` options fit together. The values are
those of streams of inputs, without brackets, and of pads that are written. -/
structure Wired (cs : List Clause) (maps : List String) : Prop where
  /-- No clause writes to an input. -/
  sources_unwritten : ∀ p ∈ cs.flatMap Clause.writes, ¬ p.IsSource
  /-- Every pad has one clause that writes it. -/
  written_once : ∀ p ∈ cs.flatMap fun c => c.reads ++ c.writes, ¬ p.IsSource →
    (cs.flatMap Clause.writes).count p = 1
  /-- Every pad is read once, by a clause or by a `-map` option. -/
  read_once : ∀ p ∈ cs.flatMap fun c => c.reads ++ c.writes, ¬ p.IsSource →
    (cs.flatMap Clause.reads).count p + maps.count p.text = 1
  /-- A clause reads what clauses before it write. -/
  read_later : ∀ ds c es, cs = ds ++ c :: es → ∀ p ∈ c.reads, ¬ p.IsSource →
    ∃ w ∈ ds, p ∈ w.writes
  /-- Every `-map` option takes a stream of an input or a pad that is written. -/
  maps_written : ∀ value ∈ maps,
    (∃ (i : Nat) (kind : StreamKind), value = toString i ++ ":" ++ kind.letter.toString) ∨
      ∃ c ∈ cs, ∃ p ∈ c.writes, value = p.text

theorem count_map_mapValue {outs : List Pad} {k : EditPad}
    (houts : ∀ o ∈ outs, o.IsSource ∨ ∃ j : EditPad, o = j.toPad) :
    (outs.map Pad.mapValue).count k.toPad.text = outs.count k.toPad := by
  rw [List.count_eq_countP, List.count_eq_countP, List.countP_map]
  apply List.countP_congr
  intro o ho
  rcases houts o ho with ⟨i, kind, rfl⟩ | ⟨j, rfl⟩
  · have hpad : Pad.stream i kind.letter ≠ k.toPad := by
      intro h
      exact k.not_isSource_toPad ⟨i, kind, h.symm⟩
    have hvalue : (Pad.stream i kind.letter).mapValue ≠ k.toPad.text := by
      intro h
      apply k.colon_not_mem_text
      rw [← h, Pad.mapValue_stream]
      simp
    simp [hpad, hvalue]
  · have htext : j.toPad.text = k.toPad.text ↔ j.toPad = k.toPad := by
      constructor
      · intro h
        exact congrArg Pad.mk h
      · intro h
        rw [h]
    simp [EditPad.mapValue_toPad, htext]

namespace Threads

variable {start : Multiset Pad} {cs : List Clause} {outs : List Pad}

theorem count_writes (h : Threads start cs outs) (hstart : ∀ p ∈ start, p.IsSource) {p : Pad}
    (hp : ¬ p.IsSource) :
    (cs.flatMap Clause.writes).count p = (cs.flatMap Clause.reads).count p + outs.count p := by
  have hcount := h.count_add hp
  rw [Multiset.count_eq_zero.2 fun hmem => hp (hstart p hmem), Multiset.coe_count] at hcount
  omega

theorem mem_writes_of_mem (h : Threads start cs outs) (hstart : ∀ p ∈ start, p.IsSource) {p : Pad}
    (hp : ¬ p.IsSource) (hopen : p ∈ outs) : p ∈ cs.flatMap Clause.writes := by
  have hcount := h.count_writes hstart hp
  have hpos := List.count_pos_iff.2 hopen
  apply List.count_pos_iff.1
  omega

theorem mem_writes (h : Threads start cs outs) (hstart : ∀ p ∈ start, p.IsSource) {p : Pad}
    (hp : ¬ p.IsSource) (hmem : p ∈ cs.flatMap fun c => c.reads ++ c.writes) :
    p ∈ cs.flatMap Clause.writes := by
  obtain ⟨c, hc, hpad⟩ := List.mem_flatMap.1 hmem
  rcases List.mem_append.1 hpad with hread | hwritten
  · have hcount := h.count_writes hstart hp
    have hpos := List.count_pos_iff.2 (List.mem_flatMap.2 ⟨c, hc, hread⟩)
    apply List.count_pos_iff.1
    omega
  · exact List.mem_flatMap.2 ⟨c, hc, hwritten⟩

/-- Clauses that start from streams of inputs, write pads of an edit, each of
them once, and leave open what the `-map` options take, fit together. -/
theorem wired (h : Threads start cs outs) (hstart : ∀ p ∈ start, p.IsSource)
    (hwrites : ∀ p ∈ cs.flatMap Clause.writes, ∃ k : EditPad, p = k.toPad)
    (hnodup : (cs.flatMap Clause.writes).Nodup) : Wired cs (outs.map Pad.mapValue) := by
  have houts : ∀ o ∈ outs, o.IsSource ∨ ∃ j : EditPad, o = j.toPad := by
    intro o ho
    by_cases hsource : o.IsSource
    · exact Or.inl hsource
    · exact Or.inr (hwrites o (h.mem_writes_of_mem hstart hsource ho))
  constructor
  case sources_unwritten =>
    intro p hp
    obtain ⟨k, rfl⟩ := hwrites p hp
    exact k.not_isSource_toPad
  case written_once =>
    intro p hp hsource
    exact List.count_eq_one_of_mem hnodup (h.mem_writes hstart hsource hp)
  case read_once =>
    intro p hp hsource
    have hmem := h.mem_writes hstart hsource hp
    obtain ⟨k, rfl⟩ := hwrites p hmem
    rw [count_map_mapValue houts, ← h.count_writes hstart hsource]
    exact List.count_eq_one_of_mem hnodup hmem
  case read_later =>
    intro ds c es hcs p hread hsource
    rw [hcs] at h
    rcases h.mem_or_written_of_reads hread hsource with hbefore | hwritten
    · exact absurd (hstart p hbefore) hsource
    · exact hwritten
  case maps_written =>
    intro value hvalue
    obtain ⟨o, ho, rfl⟩ := List.mem_map.1 hvalue
    by_cases hsource : o.IsSource
    · obtain ⟨i, kind, rfl⟩ := hsource
      exact Or.inl ⟨i, kind, Pad.mapValue_stream i kind⟩
    · have hmem := h.mem_writes_of_mem hstart hsource ho
      obtain ⟨k, rfl⟩ := hwrites o hmem
      obtain ⟨c, hc, hwritten⟩ := List.mem_flatMap.1 hmem
      exact Or.inr ⟨c, hc, k.toPad, hwritten, k.mapValue_toPad⟩

end Threads

end Montage
