import Montage.Engine.Run
import Montage.Proofs.Outcome

/-!
# What running a command does

A run that succeeds gives the files that the encoder announced, `run_eq_ok`. One
that fails has not been started, or those files are removed, `run_eq_error`. In
each case the call is recorded and later encoders answer as before.
-/

namespace Montage

def Command.call (command : Command) : Call :=
  ⟨command.program, messageOptions ++ command.arguments⟩

namespace EncoderRun

variable {run : EncoderRun} {command : Command} {files : List Path}

theorem ending_eq_ok_iff {status : ExitStatus} :
    run.ending = .ok status ↔
      run.streamFailure = none ∧ run.waitFailure = none ∧ run.status = status := by
  unfold ending
  cases run.streamFailure with
  | some e => simp
  | none =>
      cases run.waitFailure with
      | some e => simp
      | none => simp

theorem result_eq_ok_iff :
    run.result command = .ok files ↔ run.streamFailure = none ∧ run.waitFailure = none ∧
      run.status.isSuccess = true ∧ run.files = files := by
  rw [result, bind_eq_ok_iff]
  constructor
  · rintro ⟨status, hending, h⟩
    obtain ⟨hread, hawaited, rfl⟩ := ending_eq_ok_iff.1 hending
    split at h
    · rename_i hsuccess
      exact ⟨hread, hawaited, hsuccess, pure_eq_ok_iff.1 h⟩
    · cases h
  · rintro ⟨hread, hawaited, hsuccess, hfiles⟩
    refine ⟨run.status, ending_eq_ok_iff.2 ⟨hread, hawaited, rfl⟩, ?_⟩
    rw [if_pos hsuccess]
    exact pure_eq_ok_iff.2 hfiles

end EncoderRun

namespace Workbench

variable {w w' : Workbench} {command : Command} {files : List Path}

def nextRun (w : Workbench) (command : Command) : EncoderRun :=
  w.encoders w.calls.length command.call

def called (w : Workbench) (command : Command) : Workbench :=
  { w with calls := w.calls ++ [command.call] }

@[simp] theorem calls_watch (w : Workbench) (run : EncoderRun) :
    (w.watch run).calls = w.calls := by
  unfold watch
  cases run.terminable <;> cases run.interrupted <;> rfl

@[simp] theorem encoders_watch (w : Workbench) (run : EncoderRun) :
    (w.watch run).encoders = w.encoders := by
  unfold watch
  cases run.terminable <;> cases run.interrupted <;> rfl

@[simp] theorem disk_watch (w : Workbench) (run : EncoderRun) :
    (w.watch run).disk = run.writes.foldl writeIfPossible w.disk := by
  unfold watch
  cases run.terminable <;> cases run.interrupted <;> rfl

theorem run_eq (w : Workbench) (command : Command) :
    w.run command =
      match (w.nextRun command).startFailure with
      | some e => (.error e, w.called command)
      | none =>
        let watched := (w.called command).watch (w.nextRun command)
        match (w.nextRun command).result command with
        | .ok files => (.ok files, watched)
        | .error e =>
          (.error e,
            { watched with disk := removeFiles watched.disk (w.nextRun command).files }) := rfl

theorem run_eq_ok_iff :
    (w.run command).1 = .ok files ↔
      (w.nextRun command).startFailure = none ∧
        (w.nextRun command).result command = .ok files := by
  rw [run_eq]
  cases (w.nextRun command).startFailure with
  | some e => simp
  | none =>
      dsimp only
      cases (w.nextRun command).result command with
      | error e => simp
      | ok found => simp

theorem run_eq_ok (h : w.run command = (.ok files, w')) :
    (w.nextRun command).startFailure = none ∧ files = (w.nextRun command).files ∧
      w' = (w.called command).watch (w.nextRun command) := by
  obtain ⟨hstart, hresult⟩ := run_eq_ok_iff.1 (congrArg Prod.fst h)
  rw [run_eq, hstart] at h
  simp only [hresult] at h
  cases h
  exact ⟨hstart, (EncoderRun.result_eq_ok_iff.1 hresult).2.2.2.symm, rfl⟩

/-- A run that fails is not started, or its files are removed. -/
theorem run_eq_error {e : Error} (h : w.run command = (.error e, w')) :
    ((w.nextRun command).startFailure = some e ∧ w' = w.called command) ∨
      ((w.nextRun command).startFailure = none ∧
        w' = { (w.called command).watch (w.nextRun command) with
          disk := removeFiles ((w.called command).watch (w.nextRun command)).disk
            (w.nextRun command).files }) := by
  rw [run_eq] at h
  cases hstart : (w.nextRun command).startFailure with
  | some e' =>
      rw [hstart] at h
      cases h
      exact Or.inl ⟨rfl, rfl⟩
  | none =>
      rw [hstart] at h
      cases hresult : (w.nextRun command).result command with
      | error e' =>
          simp only [hresult] at h
          cases h
          exact Or.inr ⟨rfl, rfl⟩
      | ok found =>
          simp only [hresult] at h
          cases h

end Workbench

end Montage
