import Mathlib.Data.List.Basic
import Std.Data.TreeMap

/-!
# Looking up in lists

A map that is made of a list holds the last entry of each key. Where entries of one key
agree, their order does not matter, and the map holds what the list holds.
-/

namespace Montage

/-- If all that is found agrees, the last that is found is any of it. -/
theorem findSomeRev?_eq_some_iff {α β : Type*} {l : List α} {f : α → Option β}
    (hagree : ∀ a ∈ l, ∀ b ∈ l, ∀ v w, f a = some v → f b = some w → v = w) {v : β} :
    l.findSomeRev? f = some v ↔ ∃ a ∈ l, f a = some v := by
  rw [List.findSomeRev?_eq_findSome?_reverse]
  constructor
  · intro h
    obtain ⟨a, ha, hv⟩ := List.exists_of_findSome?_eq_some h
    exact ⟨a, List.mem_reverse.1 ha, hv⟩
  · rintro ⟨a, ha, hv⟩
    cases hfound : l.reverse.findSome? f with
    | none =>
      rw [List.findSome?_eq_none_iff] at hfound
      exact absurd (hv.symm.trans (hfound a (List.mem_reverse.2 ha))) (Option.some_ne_none v)
    | some w =>
      obtain ⟨b, hb, hw⟩ := List.exists_of_findSome?_eq_some hfound
      rw [hagree a ha b (List.mem_reverse.1 hb) v w hv hw]

theorem getElem?_ofList_eq_some_iff {α : Type*} {l : List (String × α)}
    (hagree : ∀ k v w, (k, v) ∈ l → (k, w) ∈ l → v = w) {k : String} {v : α} :
    (Std.TreeMap.ofList l)[k]? = some v ↔ (k, v) ∈ l := by
  have hfound (e : String × α) (w : α) :
      (if compare e.1 k = .eq then some e.2 else none) = some w ↔ e = (k, w) := by
    rw [Option.ite_none_right_eq_some, Std.LawfulEqCmp.compare_eq_iff_eq, Option.some_inj,
      Prod.ext_iff]
  rw [Std.TreeMap.ofList_eq_insertMany_empty, Std.TreeMap.getElem?_insertMany_list,
    Std.TreeMap.getElem?_emptyc, Option.or_none, findSomeRev?_eq_some_iff]
  · simp only [hfound, exists_eq_right]
  · intro a ha b hb v w hv hw
    rw [(hfound a v).1 hv] at ha
    rw [(hfound b w).1 hw] at hb
    exact hagree k v w ha hb

theorem getElem?_ofList_append {α : Type*} (l m : List (String × α)) (k : String) :
    (Std.TreeMap.ofList (l ++ m))[k]? =
      ((Std.TreeMap.ofList m)[k]?).or (Std.TreeMap.ofList l)[k]? := by
  simp only [Std.TreeMap.ofList_eq_insertMany_empty, Std.TreeMap.getElem?_insertMany_list,
    Std.TreeMap.getElem?_emptyc, Option.or_none, List.findSomeRev?_eq_findSome?_reverse,
    List.reverse_append, List.findSome?_append]

theorem mem_of_getElem?_ofList {α : Type*} {l : List (String × α)} {k : String} {v : α}
    (h : (Std.TreeMap.ofList l)[k]? = some v) : (k, v) ∈ l := by
  rw [Std.TreeMap.ofList_eq_insertMany_empty, Std.TreeMap.getElem?_insertMany_list,
    Std.TreeMap.getElem?_emptyc, Option.or_none, List.findSomeRev?_eq_findSome?_reverse] at h
  obtain ⟨e, he, hv⟩ := List.exists_of_findSome?_eq_some h
  rw [Option.ite_none_right_eq_some, Std.LawfulEqCmp.compare_eq_iff_eq, Option.some_inj] at hv
  obtain ⟨rfl, rfl⟩ := hv
  exact List.mem_reverse.1 he

theorem getElem?_ofList_filterMap {α β : Type*} {l : List α} {f : α → Option (String × β)}
    {r : String → β → Prop} (hf : ∀ k v, (∃ a ∈ l, f a = some (k, v)) ↔ r k v)
    (hagree : ∀ k v w, r k v → r k w → v = w) {k : String} {v : β} :
    (Std.TreeMap.ofList (l.filterMap f))[k]? = some v ↔ r k v := by
  rw [getElem?_ofList_eq_some_iff, List.mem_filterMap, hf]
  intro k v w hv hw
  rw [List.mem_filterMap, hf] at hv hw
  exact hagree k v w hv hw

end Montage
