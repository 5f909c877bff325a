import Montage.Proofs.Encoder.ProcessRegistry
import Montage.Proofs.Engine.Run

/-!
# Which processes an engine keeps track of

A run of an encoder is a few steps of the registry: it is registered if it can
be terminated, all processes are terminated if the engine is closed meanwhile,
and at the end its number is unregistered, whether a shutdown has drained it or
not. Its messages, its end and what goes wrong with them do not matter to the
registry, and a kill that fails is not even seen by it. So no end of a run leaves
its number behind, and no end takes another one away.
-/

namespace Montage

open Encoder (RegistryStep ProcessRegistry)

namespace EncoderRun

/-- What a run does to a registry that gives it this number. -/
def registrySteps (run : EncoderRun) (id : Nat) : List (RegistryStep Unit) :=
  if run.startFailure.isSome then []
  else
    (if run.terminable then [.register ()] else []) ++
      (if run.interrupted then [.terminateAll] else []) ++
      if run.terminable then [.unregister id] else []

/-- Behind a run this number is not live: it was given to the run, or the engine
was closed meanwhile. -/
def Releases (run : EncoderRun) (given id : Nat) : Prop :=
  run.startFailure = none ∧ (run.interrupted = true ∨ (run.terminable = true ∧ id = given))

instance (run : EncoderRun) (given id : Nat) : Decidable (run.Releases given id) :=
  inferInstanceAs (Decidable (_ ∧ _))

theorem getElem?_registrySteps (run : EncoderRun) (r : ProcessRegistry Unit) (id : Nat) :
    (r.steps (run.registrySteps r.next)).live[id]? =
      if run.Releases r.next id then none else r.live[id]? := by
  cases hstart : run.startFailure with
  | some e => simp [registrySteps, Releases, hstart]
  | none =>
      rcases eq_or_ne r.next id with rfl | hid
      · cases hterminable : run.terminable <;> cases hinterrupted : run.interrupted <;>
          simp [registrySteps, Releases, hstart, hterminable, hinterrupted, ProcessRegistry.step]
      · cases hterminable : run.terminable <;> cases hinterrupted : run.interrupted <;>
          simp [registrySteps, Releases, hstart, hterminable, hinterrupted, ProcessRegistry.step,
            hid, hid.symm]

end EncoderRun

namespace Workbench

theorem processes_watch {run : EncoderRun} (hstart : run.startFailure = none) (w : Workbench) :
    (w.watch run).processes = w.processes.steps (run.registrySteps w.processes.next) := by
  unfold watch EncoderRun.registrySteps
  rw [hstart]
  cases run.terminable <;> cases run.interrupted <;> rfl

/-- What a run of a command does to the registry, however it ends. -/
theorem processes_run (w : Workbench) (command : Command) :
    (w.run command).2.processes =
      w.processes.steps ((w.nextRun command).registrySteps w.processes.next) := by
  rw [run_eq]
  cases hstart : (w.nextRun command).startFailure with
  | some e =>
      rw [EncoderRun.registrySteps, hstart]
      rfl
  | none =>
      have hwatch := processes_watch hstart (w.called command)
      dsimp only
      cases (w.nextRun command).result command with
      | error e => exact hwatch
      | ok files => exact hwatch

end Workbench

namespace Encoder.ProcessRegistry

/-- Tracking is balanced. Along any steps the numbers that are given increase,
what is live was registered and has not been released since, and each process is
terminated once at most, by the shutdown that finds it live. Any run of any
command, however it ends, comes down to such steps: its own number is not live
behind it, and each other number is as live as before unless the engine was
closed meanwhile. -/
theorem tracking_balanced :
    (∀ (τ : Type) (l : List (RegistryStep τ)),
      (along number {} l).Pairwise (· < ·) ∧
      (∀ id t, (({} : ProcessRegistry τ).steps l).live[id]? = some t ↔ Outstanding l id t) ∧
      along terminating {} l = (along draining {} l).map Prod.snd ∧
      ((along draining {} l).map Prod.fst).Nodup ∧
      ∀ id t, (id, t) ∈ along draining {} l ↔
        ∃ before rest, l = before ++ .terminateAll :: rest ∧ Outstanding before id t) ∧
    ∀ (w : Workbench) (command : Command),
      (w.run command).2.processes =
        w.processes.steps ((w.nextRun command).registrySteps w.processes.next) ∧
      ∀ id, (w.run command).2.processes.live[id]? =
        if (w.nextRun command).Releases w.processes.next id then none
        else w.processes.live[id]? := by
  constructor
  · intro τ l
    exact ⟨numbers_pairwise_lt {} l, live_steps_iff l, terminated_eq_map_drained l,
      nodup_drained l, mem_drained_iff l⟩
  · intro w command
    refine ⟨w.processes_run command, fun id => ?_⟩
    rw [w.processes_run command]
    exact (w.nextRun command).getElem?_registrySteps w.processes id

end Encoder.ProcessRegistry

end Montage
