import Mathlib.Data.List.ProdSigma
import Montage.Clip.EditGraph
import Montage.Proofs.Graph.GraphText
import Montage.Proofs.Graph.Thread

/-!
# The pads of an edit

The clauses of an edit start from the streams of its inputs and leave one pad
open for each kind of stream, `threads_editGraph`. With several clips the trims
write the numbered pads clip by clip, while the joins read them kind by kind:
the same pads in another order.
-/

namespace Montage.Clip

def writtenPads (count : Nat) (kinds : List StreamKind) : List EditPad :=
  (if count = 1 then [] else (List.range count).flatMap fun i => kinds.map (EditPad.clip · i)) ++
    kinds.map EditPad.edit

def trims (clips : List (Clip Float)) (fade : Float) (kinds : List StreamKind) : List Clause :=
  clips.zipIdx.flatMap fun (c, i) => kinds.map fun kind => c.trimClause fade kind (kind.clipPad i)

theorem editGraph_singleton (c : Clip Float) (fade : Float) (video audio : Bool) :
    editGraph [c] fade video audio =
      (streamKinds video audio).map fun kind => c.trimClause fade kind kind.editPad := by
  simp [editGraph]

theorem editGraph_of_several {clips : List (Clip Float)} (h : 1 < clips.length) (fade : Float)
    (video audio : Bool) :
    editGraph clips fade video audio = trims clips fade (streamKinds video audio) ++
      (streamKinds video audio).map (joinClause · clips.length) := by
  have hne : clips.length ≠ 1 := by omega
  simp [editGraph, trims, h, hne]

theorem writes_trims (clips : List (Clip Float)) (fade : Float) (kinds : List StreamKind) :
    (trims clips fade kinds).flatMap Clause.writes =
      (List.range clips.length).flatMap fun i => kinds.map (StreamKind.clipPad · i) := by
  rw [List.range_eq_range', ← List.zipIdx_map_snd 0 clips, List.flatMap_map, trims, List.flatMap_assoc]
  congr 1
  funext x
  rw [List.flatMap_map]
  exact List.map_eq_flatMap.symm

theorem writes_joins (kinds : List StreamKind) (count : Nat) :
    (kinds.map (joinClause · count)).flatMap Clause.writes = kinds.map StreamKind.editPad := by
  rw [List.flatMap_map]
  exact List.map_eq_flatMap.symm

theorem clipPads_perm (count : Nat) (kinds : List StreamKind) :
    ((List.range count).flatMap fun i => kinds.map (StreamKind.clipPad · i)).Perm
      (kinds.flatMap fun kind => (List.range count).map kind.clipPad) := by
  induction kinds with
  | nil => simp
  | cons kind kinds ih =>
      have hfirst := List.map_append_flatMap_perm (List.range count) kind.clipPad
        fun i => kinds.map (StreamKind.clipPad · i)
      exact hfirst.symm.trans (ih.append_left _)

theorem isSource_of_mem_trims (clips : List (Clip Float)) (fade : Float)
    (kinds : List StreamKind) : ∀ c ∈ trims clips fade kinds, ∀ p ∈ c.reads, p.IsSource := by
  intro c hc p hp
  obtain ⟨x, _, hx⟩ := List.mem_flatMap.1 hc
  obtain ⟨kind, _, rfl⟩ := List.mem_map.1 hx
  rw [List.mem_singleton.1 hp]
  exact Pad.isSource_stream _ kind

theorem threads_singleton (c : Clip Float) (fade : Float) (kinds : List StreamKind) :
    Threads 0 (kinds.map fun kind => c.trimClause fade kind kind.editPad)
      (kinds.map StreamKind.editPad : List Pad) := by
  have hreads : ∀ d ∈ kinds.map fun kind => c.trimClause fade kind kind.editPad,
      ∀ p ∈ d.reads, p.IsSource := by
    intro d hd p hp
    obtain ⟨kind, _, rfl⟩ := List.mem_map.1 hd
    rw [List.mem_singleton.1 hp]
    exact Pad.isSource_stream _ kind
  have hthreads := Threads.of_sources hreads 0
  rw [zero_add, List.flatMap_map] at hthreads
  simpa [trimClause, ← List.map_eq_flatMap] using hthreads

theorem threads_several (clips : List (Clip Float)) (fade : Float) (kinds : List StreamKind) :
    Threads 0 (trims clips fade kinds ++ kinds.map (joinClause · clips.length))
      (kinds.map StreamKind.editPad : List Pad) := by
  have htrims := Threads.of_sources (isSource_of_mem_trims clips fade kinds) 0
  have hjoins := Threads.of_reads (kinds.map (joinClause · clips.length))
  rw [zero_add, writes_trims, Multiset.coe_eq_coe.2 (clipPads_perm _ _)] at htrims
  rw [writes_joins, List.flatMap_map] at hjoins
  exact htrims.append hjoins

/-- An edit leaves one pad open for each of its kinds of streams. -/
theorem threads_editGraph {clips : List (Clip Float)} (h : clips ≠ []) (fade : Float)
    (video audio : Bool) :
    Threads 0 (editGraph clips fade video audio)
      ((streamKinds video audio).map StreamKind.editPad : List Pad) := by
  match clips with
  | [c] =>
      rw [editGraph_singleton]
      exact threads_singleton c fade _
  | c :: d :: rest =>
      have hlength : 1 < (c :: d :: rest).length := by simp
      rw [editGraph_of_several hlength]
      exact threads_several _ fade _

theorem writes_editGraph {clips : List (Clip Float)} (h : clips ≠ []) (fade : Float)
    (video audio : Bool) :
    (editGraph clips fade video audio).flatMap Clause.writes =
      (writtenPads clips.length (streamKinds video audio)).map EditPad.toPad := by
  match clips with
  | [c] =>
      rw [editGraph_singleton, List.flatMap_map]
      simp [writtenPads, trimClause, Function.comp_def, ← List.map_eq_flatMap]
  | c :: d :: rest =>
      have hlength : 1 < (c :: d :: rest).length := by simp
      rw [editGraph_of_several hlength, List.flatMap_append, writes_trims, writes_joins, writtenPads,
        if_neg hlength.ne', List.map_append, List.map_flatMap]
      simp [Function.comp_def]

theorem nodup_streamKinds (video audio : Bool) : (streamKinds video audio).Nodup := by
  cases video <;> cases audio <;> decide

theorem nodup_writtenPads (count : Nat) {kinds : List StreamKind} (h : kinds.Nodup) :
    (writtenPads count kinds).Nodup := by
  have hclips : ((List.range count).flatMap fun i => kinds.map (EditPad.clip · i)).Nodup := by
    have hproduct := (List.nodup_range (n := count)).product h
    have hinjective : Function.Injective fun x : Nat × StreamKind => EditPad.clip x.2 x.1 := by
      intro x y hxy
      have hparts := EditPad.clip.inj hxy
      exact Prod.ext hparts.2 hparts.1
    have hmap := hproduct.map hinjective
    rw [show List.range count ×ˢ kinds = List.product (List.range count) kinds from rfl,
      List.product, List.map_flatMap] at hmap
    simpa [Function.comp_def] using hmap
  have hedits : (kinds.map EditPad.edit).Nodup := h.map fun _ _ hxy => EditPad.edit.inj hxy
  rw [writtenPads, List.nodup_append]
  refine ⟨?_, hedits, ?_⟩
  · split
    · exact List.nodup_nil
    · exact hclips
  · intro p hp q hq hpq
    subst hpq
    obtain ⟨kind, _, rfl⟩ := List.mem_map.1 hq
    split at hp
    · cases hp
    · simp at hp

theorem outputKind?_of_mem_writtenPads {count : Nat} {kinds : List StreamKind} {k : EditPad}
    (h : k ∈ writtenPads count kinds) : k.outputKind? = none := by
  rcases List.mem_append.1 h with hclip | hedit
  · split at hclip
    · cases hclip
    · obtain ⟨i, _, hi⟩ := List.mem_flatMap.1 hclip
      obtain ⟨kind, _, rfl⟩ := List.mem_map.1 hi
      rfl
  · obtain ⟨kind, _, rfl⟩ := List.mem_map.1 hedit
    rfl

theorem isPlain_trimFilter (c : Clip Float) (fade : Float) (kind : StreamKind) :
    IsPlain (c.trimFilter fade kind) := by
  unfold trimFilter
  split
  · simp only [isPlain_append_iff, isPlain_mark, isPlain_clauseSeconds, true_and, and_true]
    decide
  · simp only [isPlain_append_iff, isPlain_mark, isPlain_clauseSeconds, true_and, and_true]
    decide

theorem isPlain_trimClause (c : Clip Float) (fade : Float) (kind : StreamKind) (k : EditPad) :
    (c.trimClause fade kind k.toPad).IsPlain := by
  refine ⟨List.cons_ne_nil _ _, ?_, isPlain_trimFilter c fade kind⟩
  intro p hp
  rcases List.mem_cons.1 hp with rfl | hp
  · exact Pad.isNamed_stream _ kind
  · rw [List.mem_singleton.1 hp]
    exact k.isNamed_toPad

theorem isPlain_joinClause (kind : StreamKind) {count : Nat} (h : 1 < count) :
    (joinClause kind count).IsPlain := by
  constructor
  case reads_ne_nil =>
    intro hnil
    have hlength := congrArg List.length hnil
    simp [joinClause] at hlength
    omega
  case named =>
    intro p hp
    rcases List.mem_append.1 hp with hread | hwritten
    · obtain ⟨i, _, rfl⟩ := List.mem_map.1 hread
      rw [← EditPad.toPad_clip]
      exact EditPad.isNamed_toPad _
    · rw [List.mem_singleton.1 hwritten, ← EditPad.toPad_edit]
      exact EditPad.isNamed_toPad _
  case filter =>
    refine ((by decide : IsPlain "concat=n=").append (isPlain_toString count)).append ?_
    cases kind <;> decide

theorem isPlain_of_mem_editGraph {clips : List (Clip Float)} {fade : Float} {video audio : Bool} :
    ∀ c ∈ editGraph clips fade video audio, c.IsPlain := by
  intro c hc
  rcases List.mem_append.1 hc with htrim | hjoin
  · obtain ⟨x, _, hx⟩ := List.mem_flatMap.1 htrim
    obtain ⟨kind, _, rfl⟩ := List.mem_map.1 hx
    split
    · rw [← EditPad.toPad_edit]
      exact isPlain_trimClause _ _ _ _
    · rw [← EditPad.toPad_clip]
      exact isPlain_trimClause _ _ _ _
  · by_cases hlength : 1 < clips.length
    · rw [if_pos hlength] at hjoin
      obtain ⟨kind, _, rfl⟩ := List.mem_map.1 hjoin
      exact isPlain_joinClause kind hlength
    · rw [if_neg hlength] at hjoin
      cases hjoin

end Montage.Clip
