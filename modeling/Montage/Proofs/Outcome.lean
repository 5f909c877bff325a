/-!
# Outcomes of computations that may fail

What a computation in steps says about its steps when it succeeds: each of them
succeeded, and the last one with the result of the whole.
-/

namespace Montage

variable {ε α β : Type}

theorem bind_eq_ok_iff {x : Except ε α} {f : α → Except ε β} {b : β} :
    x >>= f = .ok b ↔ ∃ a, x = .ok a ∧ f a = .ok b := by
  cases x with
  | error e => simp [bind, Except.bind]
  | ok a => simp [bind, Except.bind]

theorem pure_eq_ok_iff {a b : α} : (pure a : Except ε α) = .ok b ↔ a = b := by
  simp [pure, Except.pure]

theorem map_eq_ok_iff {f : α → β} {x : Except ε α} {b : β} :
    x.map f = .ok b ↔ ∃ a, x = .ok a ∧ f a = b := by
  cases x with
  | error e => simp [Except.map]
  | ok a => simp [Except.map]

theorem mapM_cons_eq_ok {f : α → Except ε β} {a : α} {l : List α} {b : β} {rest : List β}
    (hfirst : f a = .ok b) (hrest : l.mapM f = .ok rest) : (a :: l).mapM f = .ok (b :: rest) := by
  rw [List.mapM_cons]
  exact bind_eq_ok_iff.2 ⟨b, hfirst, bind_eq_ok_iff.2 ⟨rest, hrest, rfl⟩⟩

theorem exists_of_mapM_eq_ok {f : α → Except ε β} {l : List α} {results : List β}
    (h : l.mapM f = .ok results) {k : Nat} {a : α} (hk : l[k]? = some a) :
    ∃ b, f a = .ok b ∧ results[k]? = some b := by
  induction l generalizing results k with
  | nil => cases hk
  | cons first l ih =>
    rw [List.mapM_cons] at h
    obtain ⟨b, hb, h⟩ := bind_eq_ok_iff.1 h
    obtain ⟨rest, hrest, h⟩ := bind_eq_ok_iff.1 h
    obtain rfl := pure_eq_ok_iff.1 h
    cases k with
    | zero =>
      obtain rfl := Option.some.inj hk
      exact ⟨b, hb, rfl⟩
    | succ k => exact ih hrest hk

theorem mem_toOption_iff {x : Except ε α} {a : α} : a ∈ x.toOption ↔ x = .ok a := by
  cases x with
  | error e => simp [Except.toOption]
  | ok b => simp [Except.toOption]

theorem exists_of_map_toOption {x : Except ε α} {f : α → β} {b : β}
    (h : x.toOption.map f = some b) : ∃ a, x = .ok a ∧ f a = b := by
  cases x with
  | error e => cases h
  | ok a => exact ⟨a, rfl, Option.some.inj h⟩

end Montage
