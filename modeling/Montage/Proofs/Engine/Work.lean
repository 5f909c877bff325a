import Montage.Engine.Operate

/-!
# Outcomes of work

What a work does to a workbench is its result together with the workbench that
it leaves, in success and in failure alike. `Work.outcome` is that pair, and the
lemmas compute it step by step. Behind a failure nothing else is done, so a
sequence fails either in its first work or behind the success of that work.
-/

namespace Montage.Work

variable {α β : Type} {w w' : Workbench}

def outcome (work : Work α) (w : Workbench) : Except Error α × Workbench := work.run.run w

theorem outcome_pure (a : α) : (pure a : Work α).outcome w = (.ok a, w) := rfl

theorem outcome_runCommand (command : Command) :
    (runCommand command).outcome w = w.run command := rfl

theorem outcome_compile (count : Nat) (commands : Site → (Nat → String) → Except Error α) :
    (compile count commands).outcome w = (commands w.site w.freshIds, w.useIds count) := rfl

theorem outcome_bind (x : Work α) (f : α → Work β) :
    (x >>= f).outcome w =
      match x.outcome w with
      | (.ok a, w1) => (f a).outcome w1
      | (.error e, w1) => (.error e, w1) := by
  unfold outcome ExceptT.run StateT.run
  simp only [bind, ExceptT.bind, ExceptT.mk, StateT.bind]
  cases x w with
  | mk result w1 => cases result <;> rfl

theorem outcome_get_bind (f : Workbench → Work β) :
    ((get : Work Workbench) >>= f).outcome w = (f w).outcome w :=
  outcome_bind get f

theorem outcome_set_bind (w1 : Workbench) (f : PUnit → Work β) :
    ((set w1 : Work PUnit) >>= f).outcome w = (f ⟨⟩).outcome w1 :=
  outcome_bind (set w1) f

theorem exists_of_bind_eq_ok {x : Work α} {f : α → Work β} {b : β}
    (h : (x >>= f).outcome w = (.ok b, w')) :
    ∃ a w1, x.outcome w = (.ok a, w1) ∧ (f a).outcome w1 = (.ok b, w') := by
  rw [outcome_bind] at h
  split at h
  · rename_i a w1 hx
    exact ⟨a, w1, hx, h⟩
  · cases h

theorem cases_of_bind_eq_error {x : Work α} {f : α → Work β} {e : Error}
    (h : (x >>= f).outcome w = (.error e, w')) :
    x.outcome w = (.error e, w') ∨
      ∃ a w1, x.outcome w = (.ok a, w1) ∧ (f a).outcome w1 = (.error e, w') := by
  rw [outcome_bind] at h
  split at h
  · rename_i a w1 hx
    exact Or.inr ⟨a, w1, hx, h⟩
  · rename_i hx
    cases h
    exact Or.inl hx

theorem outcome_onFailure (work : Work α) (clean : Work Unit) :
    (onFailure work clean).outcome w =
      match work.outcome w with
      | (.ok a, w1) => (.ok a, w1)
      | (.error e, w1) => (.error e, (clean.outcome w1).2) := by
  unfold onFailure outcome ExceptT.run StateT.run
  simp only [bind, ExceptT.mk, StateT.bind]
  cases work w with
  | mk result w1 => cases result <;> rfl

end Montage.Work
