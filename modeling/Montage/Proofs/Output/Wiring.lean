import Montage.Output.Wiring
import Montage.Proofs.Graph.GraphText
import Montage.Proofs.Graph.Thread

/-!
# The pads of one stream on its way to the outputs

The clauses of a wiring start from the pad of the stream and leave the pads open
that the `-map` options take, `threads_ofFilters`. They are not the stream's pad
itself but for a single output without a filter.

Every output writes its own pad in the end, whether the split does that or the
filter behind it. So what a split and its filters write is, in another order,
the pads of all outputs and the pads before the filters: `writes_filters_perm`.
-/

namespace Montage

namespace Wiring

variable (kind : StreamKind) (input : Pad)

def encodedPads : List (Option String) → List Pad
  | [none] => [input]
  | filters => (List.range filters.length).map kind.outputPad

def filterClause? (x : Option String × Nat) : Option Clause :=
  x.1.map fun filter => ⟨[kind.branchPad x.2], filter, [kind.outputPad x.2]⟩

@[simp] theorem filterClause?_none (i : Nat) : filterClause? kind (none, i) = none := rfl

@[simp] theorem filterClause?_some (filter : String) (i : Nat) :
    filterClause? kind (some filter, i) =
      some ⟨[kind.branchPad i], filter, [kind.outputPad i]⟩ := rfl

@[simp] theorem splitPad_none (i : Nat) : splitPad kind i none = kind.outputPad i := rfl

@[simp] theorem splitPad_some (filter : String) (i : Nat) :
    splitPad kind i (some filter) = kind.branchPad i := rfl

theorem mapValue_outputPad (i : Nat) : (kind.outputPad i).mapValue = (kind.outputPad i).text := by
  rw [← EditPad.toPad_output]
  exact EditPad.mapValue_toPad _

theorem outputPad_injective : Function.Injective kind.outputPad := by
  intro i j h
  rw [← EditPad.toPad_output, ← EditPad.toPad_output] at h
  exact (EditPad.output.inj (EditPad.toPad_injective h)).2

theorem maps_ofFilters (filters : List (Option String)) :
    (ofFilters kind input filters).maps = (encodedPads kind input filters).map Pad.mapValue := by
  match filters with
  | [] => rfl
  | [none] => rfl
  | [some filter] =>
      show [(kind.outputPad 0).text] = [(kind.outputPad 0).mapValue]
      rw [mapValue_outputPad]
  | first :: second :: rest =>
      simp [ofFilters, several, encodedPads, mapValue_outputPad, Function.comp_def]

theorem nodup_maps_ofFilters (filters : List (Option String)) :
    (ofFilters kind input filters).maps.Nodup := by
  have hinjective : Function.Injective fun i => (kind.outputPad i).text := by
    intro i j h
    exact outputPad_injective kind (congrArg Pad.mk h)
  match filters with
  | [] => exact List.nodup_nil
  | [none] => exact List.nodup_singleton _
  | [some filter] => exact List.nodup_singleton _
  | first :: second :: rest => exact List.nodup_range.map hinjective

theorem threads_filters (outputs : List (Option String × Nat)) :
    Threads (outputs.map fun x => splitPad kind x.2 x.1 : List Pad)
      (outputs.filterMap (filterClause? kind))
      (outputs.map fun x => kind.outputPad x.2 : List Pad) := by
  induction outputs with
  | nil => exact Threads.nil _
  | cons x outputs ih =>
      obtain ⟨filter, i⟩ := x
      have hframe := ih.frame_cons (kind.outputPad i)
      cases filter with
      | none => exact hframe
      | some filter =>
          rw [List.filterMap_cons_some (filterClause?_some kind filter i)]
          refine Threads.cons 0 ([kind.branchPad i] : List Pad)
            (outputs.map fun x => splitPad kind x.2 x.1 : List Pad) rfl (zero_add _).symm (by simp) ?_
          rw [add_comm]
          exact hframe

theorem outputPads_eq (filters : List (Option String)) :
    (filters.zipIdx.map fun x => kind.outputPad x.2) =
      (List.range filters.length).map kind.outputPad := by
  rw [List.range_eq_range', ← List.zipIdx_map_snd 0 filters, List.map_map]
  rfl

/-- The clauses take the stream from its pad to the pads that are encoded. -/
theorem threads_ofFilters (filters : List (Option String)) :
    Threads {input} (ofFilters kind input filters).clauses
      (encodedPads kind input filters : List Pad) := by
  have hseveral : Threads {input} (several kind input filters).clauses
      ((List.range filters.length).map kind.outputPad : List Pad) := by
    have hfilters := threads_filters kind filters.zipIdx
    rw [outputPads_eq] at hfilters
    refine Threads.cons 0 {input} 0 (add_zero _).symm (zero_add _).symm (by simp) ?_
    rw [zero_add]
    exact hfilters
  match filters with
  | [] => exact hseveral
  | [none] => exact Threads.nil _
  | [some filter] => exact Threads.of_reads [⟨[input], filter, [kind.outputPad 0]⟩]
  | first :: second :: rest => cases first <;> exact hseveral

/-- What a split and the filters behind it write: the pads of all outputs, and
the pads before the filters. -/
def writtenPads (outputs : List (Option String × Nat)) : List EditPad :=
  (outputs.map fun x => .output kind x.2) ++
    (outputs.filter fun x => x.1.isSome).map fun x => .branch kind x.2

theorem map_toPad_writtenPads (outputs : List (Option String × Nat)) :
    (writtenPads kind outputs).map EditPad.toPad = (outputs.map fun x => kind.outputPad x.2) ++
      (outputs.filter fun x => x.1.isSome).map fun x => kind.branchPad x.2 := by
  simp [writtenPads, Function.comp_def]

theorem writes_filters_perm (outputs : List (Option String × Nat)) :
    ((outputs.map fun x => splitPad kind x.2 x.1) ++
      (outputs.filterMap (filterClause? kind)).flatMap Clause.writes).Perm
      ((writtenPads kind outputs).map EditPad.toPad) := by
  rw [map_toPad_writtenPads]
  induction outputs with
  | nil => exact List.Perm.nil
  | cons x outputs ih =>
      obtain ⟨filter, i⟩ := x
      cases filter with
      | none =>
          rw [List.filterMap_cons_none (filterClause?_none kind i),
            List.filter_cons_of_neg (by simp)]
          exact ih.cons (kind.outputPad i)
      | some filter =>
          rw [List.filterMap_cons_some (filterClause?_some kind filter i),
            List.filter_cons_of_pos (by simp)]
          have hboth := (ih.cons (kind.outputPad i)).cons (kind.branchPad i)
          have hleft : ((outputs.map fun x => splitPad kind x.2 x.1) ++ kind.outputPad i ::
              (outputs.filterMap (filterClause? kind)).flatMap Clause.writes).Perm _ :=
            List.perm_middle
          have hright : (kind.outputPad i :: (outputs.map fun x => kind.outputPad x.2) ++
              kind.branchPad i :: (outputs.filter fun x => x.1.isSome).map
                fun x => kind.branchPad x.2).Perm _ :=
            List.perm_middle
          exact ((hleft.cons (kind.branchPad i)).trans hboth).trans hright.symm

theorem nodup_writtenPads {outputs : List (Option String × Nat)}
    (h : outputs.Pairwise fun x y => x.2 ≠ y.2) : (writtenPads kind outputs).Nodup := by
  rw [writtenPads, List.nodup_append]
  refine ⟨?_, ?_, ?_⟩
  · rw [List.Nodup, List.pairwise_map]
    exact h.imp fun hne heq => hne (EditPad.output.inj heq).2
  · rw [List.Nodup, List.pairwise_map]
    exact (h.filter _).imp fun hne heq => hne (EditPad.branch.inj heq).2
  · intro p hp q hq hpq
    obtain ⟨x, _, rfl⟩ := List.mem_map.1 hp
    obtain ⟨y, _, rfl⟩ := List.mem_map.1 hq
    cases hpq

theorem outputKind?_of_mem_writtenPads {outputs : List (Option String × Nat)} {k : EditPad}
    (h : k ∈ writtenPads kind outputs) : k.outputKind? = some kind := by
  rcases List.mem_append.1 h with hk | hk
  · obtain ⟨x, _, rfl⟩ := List.mem_map.1 hk
    rfl
  · obtain ⟨x, _, rfl⟩ := List.mem_map.1 hk
    rfl

theorem pairwise_zipIdx (filters : List (Option String)) :
    filters.zipIdx.Pairwise fun x y => x.2 ≠ y.2 := by
  apply List.pairwise_map.1
  rw [List.zipIdx_map_snd]
  exact List.nodup_range'

/-- A wiring writes pads of its own kind of stream, and none of them twice. -/
theorem exists_keys_ofFilters (filters : List (Option String)) :
    ∃ keys : List EditPad,
      ((ofFilters kind input filters).clauses.flatMap Clause.writes).Perm
          (keys.map EditPad.toPad) ∧
        keys.Nodup ∧ ∀ k ∈ keys, k.outputKind? = some kind := by
  have hseveral : ∃ keys : List EditPad,
      ((several kind input filters).clauses.flatMap Clause.writes).Perm
          (keys.map EditPad.toPad) ∧
        keys.Nodup ∧ ∀ k ∈ keys, k.outputKind? = some kind :=
    ⟨writtenPads kind filters.zipIdx, writes_filters_perm kind filters.zipIdx,
      nodup_writtenPads kind (pairwise_zipIdx filters),
      fun _ hk => outputKind?_of_mem_writtenPads kind hk⟩
  match filters with
  | [] => exact hseveral
  | [none] => exact ⟨[], List.Perm.nil, List.nodup_nil, by simp⟩
  | [some filter] =>
      exact ⟨[EditPad.output kind 0], by simp [ofFilters, single, clauses], List.nodup_singleton _,
        by simp [EditPad.outputKind?]⟩
  | first :: second :: rest => exact hseveral

theorem split_ofFilters {filters : List (Option String)} {c : Clause}
    (h : (ofFilters kind input filters).split = some c) :
    c.filter = kind.mark ++ "split=" ++ toString filters.length ∧
      c.writes.length = filters.length := by
  have hseveral (hc : (several kind input filters).split = some c) :
      c.filter = kind.mark ++ "split=" ++ toString filters.length ∧
        c.writes.length = filters.length := by
    obtain rfl := Option.some.inj hc
    simp
  match filters with
  | [] => exact hseveral h
  | [none] => cases h
  | [some filter] => cases h
  | first :: second :: rest => exact hseveral h

theorem isNamed_outputPad (i : Nat) : (kind.outputPad i).IsNamed := by
  rw [← EditPad.toPad_output]
  exact EditPad.isNamed_toPad _

theorem isNamed_branchPad (i : Nat) : (kind.branchPad i).IsNamed := by
  rw [← EditPad.toPad_branch]
  exact EditPad.isNamed_toPad _

theorem isNamed_splitPad (i : Nat) (filter : Option String) : (splitPad kind i filter).IsNamed := by
  cases filter with
  | none => exact isNamed_outputPad kind i
  | some filter => exact isNamed_branchPad kind i

theorem isPlain_filterClause {source target : Pad} {filter : String} (hsource : source.IsNamed)
    (htarget : target.IsNamed) (hplain : IsPlain filter) :
    (Clause.mk [source] filter [target]).IsPlain := by
  refine ⟨List.cons_ne_nil _ _, ?_, hplain⟩
  intro p hp
  rcases List.mem_cons.1 hp with rfl | hp
  · exact hsource
  · rw [List.mem_singleton.1 hp]
    exact htarget

theorem isPlain_split {c : Clause} (hinput : input.IsNamed) {filters : List (Option String)}
    (h : (several kind input filters).split = some c) : c.IsPlain := by
  obtain rfl := Option.some.inj h
  refine ⟨List.cons_ne_nil _ _, ?_, ((isPlain_mark kind).append (by decide)).append
    (isPlain_toString _)⟩
  intro p hp
  rcases List.mem_cons.1 hp with rfl | hp
  · exact hinput
  · obtain ⟨x, _, rfl⟩ := List.mem_map.1 hp
    exact isNamed_splitPad kind x.2 x.1

theorem isPlain_of_mem_clauses (hinput : input.IsNamed) {filters : List (Option String)}
    (hplain : ∀ c ∈ (ofFilters kind input filters).filters, IsPlain c.filter) :
    ∀ c ∈ (ofFilters kind input filters).clauses, c.IsPlain := by
  have hseveral (hplain : ∀ c ∈ (several kind input filters).filters, IsPlain c.filter) :
      ∀ c ∈ (several kind input filters).clauses, c.IsPlain := by
    intro c hc
    rcases List.mem_append.1 hc with hsplit | hfilter
    · exact isPlain_split kind input hinput (Option.mem_toList.1 hsplit)
    · have htext := hplain c hfilter
      obtain ⟨x, _, hx⟩ := List.mem_filterMap.1 hfilter
      obtain ⟨filter, _, rfl⟩ := Option.map_eq_some_iff.1 hx
      exact isPlain_filterClause (isNamed_branchPad kind x.2) (isNamed_outputPad kind x.2) htext
  match filters with
  | [] => exact hseveral hplain
  | [none] =>
      intro c hc
      cases hc
  | [some filter] =>
      intro c hc
      obtain rfl := List.mem_singleton.1 hc
      exact isPlain_filterClause hinput (isNamed_outputPad kind 0) (hplain _ List.mem_cons_self)
  | first :: second :: rest => exact hseveral hplain

end Wiring

end Montage
