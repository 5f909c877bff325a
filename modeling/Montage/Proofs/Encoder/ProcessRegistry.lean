import Mathlib.Data.List.Induction
import Mathlib.Data.List.Nodup
import Montage.Encoder.ProcessRegistry

/-!
# What a registry knows behind any steps

Runs of encoders and shutdowns share a registry, so their steps come in any
order, and a run may take out a process that a shutdown has taken out before.
What is live is said without the registry: a number is `Outstanding` behind some
steps if one of them has given it and no later one releases it, which is
`live_steps_iff`. What is terminated is collected along the steps together with
the numbers, and no number is drained twice, `nodup_drained`.

All of it rests on one invariant, `IsNumbered`: nothing is live at a number that
is still to be given.
-/

namespace Montage.Encoder

inductive RegistryStep (τ : Type) where
  | register (process : τ)
  | unregister (id : Nat)
  | terminateAll
  deriving DecidableEq, Repr

namespace RegistryStep

variable {τ : Type}

/-- The step takes the process with this number out, if it is there. -/
def Releases (id : Nat) : RegistryStep τ → Prop
  | register _ => False
  | unregister released => released = id
  | terminateAll => True

end RegistryStep

namespace ProcessRegistry

variable {τ α β : Type} {r : ProcessRegistry τ} {s : RegistryStep τ} {l : List (RegistryStep τ)}
  {id : Nat} {t : τ}

def step (r : ProcessRegistry τ) : RegistryStep τ → ProcessRegistry τ
  | .register process => (r.register process).2
  | .unregister id => r.unregister id
  | .terminateAll => r.terminateAll.2

def steps (r : ProcessRegistry τ) (l : List (RegistryStep τ)) : ProcessRegistry τ := l.foldl step r

@[simp] theorem steps_nil : r.steps [] = r := rfl

@[simp] theorem steps_cons : r.steps (s :: l) = (r.step s).steps l := rfl

theorem steps_append (l l' : List (RegistryStep τ)) : r.steps (l ++ l') = (r.steps l).steps l' :=
  List.foldl_append

/-- What each step gives where it is done, one after the other. -/
def along (give : ProcessRegistry τ → RegistryStep τ → List α) :
    ProcessRegistry τ → List (RegistryStep τ) → List α
  | _, [] => []
  | r, s :: l => give r s ++ along give (r.step s) l

variable {give : ProcessRegistry τ → RegistryStep τ → List α}

theorem along_append (r : ProcessRegistry τ) (l l' : List (RegistryStep τ)) :
    along give r (l ++ l') = along give r l ++ along give (r.steps l) l' := by
  induction l generalizing r with
  | nil => rfl
  | cons s l ih =>
      rw [List.cons_append, along, along, ih, List.append_assoc, steps_cons]

theorem along_concat (r : ProcessRegistry τ) (l : List (RegistryStep τ)) (s : RegistryStep τ) :
    along give r (l ++ [s]) = along give r l ++ give (r.steps l) s := by
  rw [along_append, along, along, List.append_nil]

theorem along_eq_map {f : α → β} {give' : ProcessRegistry τ → RegistryStep τ → List β}
    (h : ∀ r s, give' r s = (give r s).map f) (r : ProcessRegistry τ)
    (l : List (RegistryStep τ)) : along give' r l = (along give r l).map f := by
  induction l generalizing r with
  | nil => rfl
  | cons s l ih => rw [along, along, ih, h, List.map_append]

theorem mem_along_iff {a : α} (r : ProcessRegistry τ) (l : List (RegistryStep τ)) :
    a ∈ along give r l ↔
      ∃ before s rest, l = before ++ s :: rest ∧ a ∈ give (r.steps before) s := by
  induction l generalizing r with
  | nil => simp [along]
  | cons s l ih =>
      rw [along, List.mem_append, ih]
      constructor
      · rintro (hhere | ⟨before, s', rest, rfl, hlater⟩)
        · exact ⟨[], s, l, rfl, hhere⟩
        · exact ⟨s :: before, s', rest, rfl, hlater⟩
      · rintro ⟨before, s', rest, hl, hgive⟩
        cases before with
        | nil =>
            cases hl
            exact Or.inl hgive
        | cons first before =>
            cases hl
            exact Or.inr ⟨before, s', rest, rfl, hgive⟩

/-! ## Numbers -/

def number (r : ProcessRegistry τ) : RegistryStep τ → List Nat
  | .register process => [(r.register process).1]
  | .unregister _ => []
  | .terminateAll => []

theorem next_step (r : ProcessRegistry τ) (s : RegistryStep τ) :
    (r.step s).next = r.next + (r.number s).length := by
  cases s <;> rfl

theorem number_eq (r : ProcessRegistry τ) (s : RegistryStep τ) :
    r.number s = List.range' r.next (r.number s).length := by
  cases s <;> rfl

/-- Numbers are given one after the other, whatever is released meanwhile. -/
theorem numbers_eq (r : ProcessRegistry τ) (l : List (RegistryStep τ)) :
    along number r l = List.range' r.next (along number r l).length := by
  induction l generalizing r with
  | nil => rfl
  | cons s l ih =>
      rw [along, List.length_append, ← List.range'_append_1, ← number_eq, ← next_step, ← ih]

theorem numbers_pairwise_lt (r : ProcessRegistry τ) (l : List (RegistryStep τ)) :
    (along number r l).Pairwise (· < ·) := by
  rw [numbers_eq]
  exact List.pairwise_lt_range'

/-! ## What is live -/

/-- Nothing is live at a number that is still to be given. -/
def IsNumbered (r : ProcessRegistry τ) : Prop := ∀ id, r.next ≤ id → r.live[id]? = none

theorem isNumbered_empty : ({} : ProcessRegistry τ).IsNumbered := fun _ _ =>
  Std.TreeMap.getElem?_emptyc

@[simp] theorem getElem?_register (process : τ) (id : Nat) :
    (r.register process).2.live[id]? = if r.next = id then some process else r.live[id]? := by
  simp [register, Std.TreeMap.getElem?_insert]

@[simp] theorem getElem?_unregister (released id : Nat) :
    (r.unregister released).live[id]? = if released = id then none else r.live[id]? := by
  simp [unregister, Std.TreeMap.getElem?_erase]

@[simp] theorem getElem?_terminateAll (id : Nat) : r.terminateAll.2.live[id]? = none :=
  Std.TreeMap.getElem?_emptyc

theorem IsNumbered.step (h : r.IsNumbered) (s : RegistryStep τ) : (r.step s).IsNumbered := by
  intro id hid
  cases s with
  | register process =>
      have hnext : r.next < id := hid
      rw [ProcessRegistry.step, getElem?_register, if_neg (by omega)]
      exact h id (by omega)
  | unregister released =>
      rw [ProcessRegistry.step, getElem?_unregister, h id hid, ite_self]
  | terminateAll => exact getElem?_terminateAll id

theorem IsNumbered.steps (h : r.IsNumbered) (l : List (RegistryStep τ)) :
    (r.steps l).IsNumbered := by
  induction l generalizing r with
  | nil => exact h
  | cons s l ih => exact ih (h.step s)

/-- Behind a step that is live which was registered by it, or was live and is
not released. -/
theorem live_step_iff (h : r.IsNumbered) :
    (r.step s).live[id]? = some t ↔
      (s = .register t ∧ r.next = id) ∨ (r.live[id]? = some t ∧ ¬ s.Releases id) := by
  cases s with
  | register process =>
      rw [step, getElem?_register]
      split
      · rename_i hid
        simp [RegistryStep.Releases, h id (Nat.le_of_eq hid), hid]
      · rename_i hid
        simp [RegistryStep.Releases, hid]
  | unregister released =>
      rw [step, getElem?_unregister]
      split
      · rename_i hid
        simp [RegistryStep.Releases, hid]
      · rename_i hid
        simp [RegistryStep.Releases, hid]
  | terminateAll => simp [step, RegistryStep.Releases]

/-- The number was given to the process by one of the steps, which began with no
process, and no later step releases it. -/
def Outstanding (l : List (RegistryStep τ)) (id : Nat) (t : τ) : Prop :=
  ∃ before rest, l = before ++ .register t :: rest ∧
    (({} : ProcessRegistry τ).steps before |>.register t).1 = id ∧ ∀ s ∈ rest, ¬ s.Releases id

theorem concat_eq_append_cons_iff {before rest : List α} {first last : α} {l : List α} :
    l ++ [last] = before ++ first :: rest ↔
      (rest = [] ∧ l = before ∧ last = first) ∨
        ∃ rest', rest = rest' ++ [last] ∧ l = before ++ first :: rest' := by
  induction rest using List.reverseRecOn with
  | nil => simp [List.append_singleton_inj]
  | append_singleton rest a =>
      rw [← List.cons_append, ← List.append_assoc, List.append_singleton_inj]
      constructor
      · rintro ⟨rfl, rfl⟩
        exact Or.inr ⟨rest, rfl, rfl⟩
      · rintro (⟨hrest, -⟩ | ⟨rest', hrest, rfl⟩)
        · simp at hrest
        · obtain ⟨rfl, rfl⟩ := List.append_singleton_inj.1 hrest
          exact ⟨rfl, rfl⟩

theorem outstanding_concat_iff :
    Outstanding (l ++ [s]) id t ↔
      (s = .register t ∧ (({} : ProcessRegistry τ).steps l).next = id) ∨
        (Outstanding l id t ∧ ¬ s.Releases id) := by
  constructor
  · rintro ⟨before, rest, hl, hid, hkept⟩
    rcases concat_eq_append_cons_iff.1 hl with ⟨rfl, rfl, rfl⟩ | ⟨rest, rfl, rfl⟩
    · exact Or.inl ⟨rfl, hid⟩
    · rw [List.forall_mem_append] at hkept
      exact Or.inr ⟨⟨before, rest, rfl, hid, hkept.1⟩, hkept.2 s (List.mem_singleton_self s)⟩
  · rintro (⟨rfl, hid⟩ | ⟨⟨before, rest, rfl, hid, hkept⟩, hs⟩)
    · exact ⟨l, [], rfl, hid, fun _ h => absurd h List.not_mem_nil⟩
    · refine ⟨before, rest ++ [s], by simp, hid, ?_⟩
      rw [List.forall_mem_append]
      exact ⟨hkept, List.forall_mem_singleton.2 hs⟩

/-- What is live is what was registered and has not been released since. -/
theorem live_steps_iff (l : List (RegistryStep τ)) (id : Nat) (t : τ) :
    (({} : ProcessRegistry τ).steps l).live[id]? = some t ↔ Outstanding l id t := by
  induction l using List.reverseRecOn with
  | nil =>
      rw [steps_nil, isNumbered_empty id (Nat.zero_le id)]
      constructor
      · intro h
        cases h
      · rintro ⟨before, rest, hl, -⟩
        simp at hl
  | append_singleton l s ih =>
      rw [outstanding_concat_iff, ← ih, steps_append]
      exact live_step_iff (isNumbered_empty.steps l)

/-! ## What is terminated -/

def terminating (r : ProcessRegistry τ) : RegistryStep τ → List τ
  | .register _ => []
  | .unregister _ => []
  | .terminateAll => r.terminateAll.1

/-- What a step terminates, with the numbers under which it was live. -/
def draining (r : ProcessRegistry τ) : RegistryStep τ → List (Nat × τ)
  | .register _ => []
  | .unregister _ => []
  | .terminateAll => r.live.toList

theorem values_eq_map_toList (live : Std.TreeMap Nat τ) :
    live.values = live.toList.map Prod.snd := by
  show Std.DTreeMap.Internal.Impl.values _ =
    (Std.DTreeMap.Internal.Impl.Const.toList _).map Prod.snd
  rw [Std.DTreeMap.Internal.Impl.values_eq_map_snd,
    Std.DTreeMap.Internal.Impl.Const.toList_eq_toListModel_map, List.map_map]
  rfl

theorem terminating_eq_map (r : ProcessRegistry τ) (s : RegistryStep τ) :
    r.terminating s = (r.draining s).map Prod.snd := by
  cases s with
  | register process => rfl
  | unregister released => rfl
  | terminateAll => exact values_eq_map_toList r.live

theorem mem_draining_iff :
    (id, t) ∈ r.draining s ↔ s = .terminateAll ∧ r.live[id]? = some t := by
  cases s <;> simp [draining, Std.TreeMap.mem_toList_iff_getElem?_eq_some]

theorem nodup_draining (r : ProcessRegistry τ) (s : RegistryStep τ) :
    ((r.draining s).map Prod.fst).Nodup := by
  cases s with
  | register process => exact List.nodup_nil
  | unregister released => exact List.nodup_nil
  | terminateAll =>
      rw [draining, Std.TreeMap.map_fst_toList_eq_keys]
      exact Std.TreeMap.nodup_keys

def IsSpent (r : ProcessRegistry τ) (id : Nat) : Prop := id < r.next ∧ r.live[id]? = none

theorem IsSpent.step (h : r.IsSpent id) (hr : r.IsNumbered) (s : RegistryStep τ) :
    (r.step s).IsSpent id := by
  constructor
  · rw [next_step]
    exact Nat.lt_add_right _ h.1
  · rw [Option.eq_none_iff_forall_ne_some]
    intro t ht
    rcases (live_step_iff hr).1 ht with ⟨-, hid⟩ | ⟨hlive, -⟩
    · exact absurd hid (Nat.ne_of_gt h.1)
    · rw [h.2] at hlive
      cases hlive

theorem isSpent_of_mem_draining (hr : r.IsNumbered) (h : (id, t) ∈ r.draining s) :
    (r.step s).IsSpent id := by
  obtain ⟨rfl, hlive⟩ := mem_draining_iff.1 h
  refine ⟨?_, getElem?_terminateAll id⟩
  by_contra hid
  rw [hr id (Nat.not_lt.1 hid)] at hlive
  cases hlive

/-- The numbers under which processes were terminated are all different and
lead nowhere. -/
theorem nodup_drained_and_isSpent (l : List (RegistryStep τ)) :
    ((along draining {} l).map Prod.fst).Nodup ∧
      ∀ drained ∈ along draining {} l, (({} : ProcessRegistry τ).steps l).IsSpent drained.1 := by
  induction l using List.reverseRecOn with
  | nil => exact ⟨List.nodup_nil, fun _ h => absurd h List.not_mem_nil⟩
  | append_singleton l s ih =>
      have hr : (({} : ProcessRegistry τ).steps l).IsNumbered := isNumbered_empty.steps l
      obtain ⟨hnodup, hspent⟩ := ih
      rw [along_concat, List.map_append, steps_append]
      constructor
      · refine List.nodup_append.2 ⟨hnodup, nodup_draining _ s, ?_⟩
        intro a ha b hb hab
        obtain ⟨old, hold, rfl⟩ := List.mem_map.1 ha
        obtain ⟨new, hnew, rfl⟩ := List.mem_map.1 hb
        have hlive := (mem_draining_iff.1 hnew).2
        rw [← hab, (hspent old hold).2] at hlive
        cases hlive
      · intro drained hdrained
        rcases List.mem_append.1 hdrained with hold | hnew
        · exact (hspent drained hold).step hr s
        · exact isSpent_of_mem_draining hr hnew

theorem nodup_drained (l : List (RegistryStep τ)) :
    ((along draining {} l).map Prod.fst).Nodup :=
  (nodup_drained_and_isSpent l).1

/-- A process is terminated by a shutdown that finds it registered and not
released. -/
theorem mem_drained_iff (l : List (RegistryStep τ)) (id : Nat) (t : τ) :
    (id, t) ∈ along draining {} l ↔
      ∃ before rest, l = before ++ .terminateAll :: rest ∧ Outstanding before id t := by
  rw [mem_along_iff]
  constructor
  · rintro ⟨before, s, rest, rfl, h⟩
    obtain ⟨rfl, hlive⟩ := mem_draining_iff.1 h
    exact ⟨before, rest, rfl, (live_steps_iff before id t).1 hlive⟩
  · rintro ⟨before, rest, rfl, h⟩
    exact ⟨before, .terminateAll, rest, rfl,
      mem_draining_iff.2 ⟨rfl, (live_steps_iff before id t).2 h⟩⟩

theorem terminated_eq_map_drained (l : List (RegistryStep τ)) :
    along terminating {} l = (along draining {} l).map Prod.snd :=
  along_eq_map terminating_eq_map {} l

end ProcessRegistry

end Montage.Encoder
