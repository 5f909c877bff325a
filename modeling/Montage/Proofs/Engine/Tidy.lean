import Montage.Proofs.Disk.Refusal
import Montage.Proofs.Engine.Run
import Montage.Proofs.Engine.Work
import Montage.Proofs.Playlist.Renaming

/-!
# Work that accounts for its files

`Recorded w w' p` says that a run between two workbenches announced the file `p`.
A work is `Tidy` if it does not lose track of such files: in success they are
among the files that are made of its result, and in failure none of them is left.

Works are done one after the other, and the second one has to see to the files of
the first one as well. So `Tidy` carries the files that were made before, and then
`Tidy.bind` puts works together.
-/

namespace Montage

/-- The files that a run announces, if it takes place. -/
def EncoderRun.recorded (run : EncoderRun) : List Path :=
  match run.startFailure with
  | some _ => []
  | none => run.files

namespace Workbench

/-- A run between the two workbenches announced the file. -/
def Recorded (w w' : Workbench) (p : Path) : Prop :=
  ∃ k call, w.calls.length ≤ k ∧ w'.calls[k]? = some call ∧ p ∈ (w.encoders k call).recorded

def Removable (w : Workbench) : Prop := ∀ p, w.disk.refuses (.remove p) = none

structure Follows (w w' : Workbench) : Prop where
  calls : w.calls <+: w'.calls
  encoders : w'.encoders = w.encoders
  refuses : w'.disk.refuses = w.disk.refuses

variable {w w' w'' : Workbench} {p : Path}

theorem Follows.refl (w : Workbench) : Follows w w := ⟨List.prefix_refl _, rfl, rfl⟩

theorem Follows.trans (h : Follows w w') (h' : Follows w' w'') : Follows w w'' :=
  ⟨h.calls.trans h'.calls, h'.encoders.trans h.encoders, h'.refuses.trans h.refuses⟩

theorem Follows.removable (h : Follows w w') (hremove : w.Removable) : w'.Removable := by
  intro p
  rw [h.refuses]
  exact hremove p

theorem not_recorded (h : w'.calls = w.calls) : ¬ Recorded w w' p := by
  rintro ⟨k, call, hk, hcall, _⟩
  rw [h, List.getElem?_eq_none hk] at hcall
  cases hcall

/-- What is recorded in two works is recorded in one of them. -/
theorem recorded_cases (h : Follows w w') (h' : Follows w' w'') (hp : Recorded w w'' p) :
    Recorded w w' p ∨ Recorded w' w'' p := by
  obtain ⟨k, call, hk, hcall, hmem⟩ := hp
  by_cases hfirst : k < w'.calls.length
  · left
    obtain ⟨later, hlater⟩ := h'.calls
    rw [← hlater, List.getElem?_append_left hfirst] at hcall
    exact ⟨k, call, hk, hcall, hmem⟩
  · right
    refine ⟨k, call, Nat.le_of_not_lt hfirst, hcall, ?_⟩
    rw [h.encoders]
    exact hmem

theorem writeIfPossible_eq (d : Disk) (file : Path × ByteArray) :
    writeIfPossible d file = d ∨ ∃ R node, writeIfPossible d file = d.put R node := by
  unfold writeIfPossible
  split
  · rename_i d' hwrite
    obtain ⟨e, _, ⟨_, hsame⟩ | ⟨_, hput⟩⟩ := Disk.exists_of_write hwrite
    · exact .inl hsame
    · exact .inr ⟨_, _, hput⟩
  · exact .inl rfl

theorem refuses_writeIfPossible (d : Disk) (file : Path × ByteArray) :
    (writeIfPossible d file).refuses = d.refuses := by
  rcases writeIfPossible_eq d file with hsame | ⟨R, node, hput⟩
  · rw [hsame]
  · rw [hput, Disk.put]

theorem refuses_writes (d : Disk) (writes : List (Path × ByteArray)) :
    (writes.foldl writeIfPossible d).refuses = d.refuses := by
  induction writes generalizing d with
  | nil => rfl
  | cons file writes ih => exact (ih _).trans (refuses_writeIfPossible d file)

theorem workingDirectory_writeIfPossible (d : Disk) (file : Path × ByteArray) :
    (writeIfPossible d file).workingDirectory = d.workingDirectory := by
  rcases writeIfPossible_eq d file with hsame | ⟨R, node, hput⟩
  · rw [hsame]
  · rw [hput, Disk.put]

theorem workingDirectory_writes (d : Disk) (writes : List (Path × ByteArray)) :
    (writes.foldl writeIfPossible d).workingDirectory = d.workingDirectory := by
  induction writes generalizing d with
  | nil => rfl
  | cons file writes ih => exact (ih _).trans (workingDirectory_writeIfPossible d file)

theorem follows_called (w : Workbench) (command : Command) : Follows w (w.called command) :=
  ⟨List.prefix_append _ _, rfl, rfl⟩

theorem follows_watch (w : Workbench) (run : EncoderRun) : Follows w (w.watch run) := by
  refine ⟨?_, encoders_watch w run, ?_⟩
  · simp
  · rw [disk_watch, refuses_writes]

theorem follows_removeFiles (w : Workbench) (files : List Path) :
    Follows w { w with disk := removeFiles w.disk files } :=
  ⟨List.prefix_refl _, rfl, refuses_removeFiles w.disk files⟩

theorem mem_recorded {command : Command} (hcalls : w'.calls = w.calls ++ [command.call])
    (hp : Recorded w w' p) : p ∈ (w.nextRun command).recorded := by
  obtain ⟨k, call, hk, hcall, hmem⟩ := hp
  rw [hcalls, List.getElem?_append_right hk] at hcall
  have hlast : k - w.calls.length = 0 := by
    have hbound := (List.getElem?_eq_some_iff.1 hcall).1
    simp only [List.length_singleton] at hbound
    omega
  have hnext : k = w.calls.length := by omega
  subst hnext
  rw [hlast] at hcall
  cases hcall
  exact hmem

theorem recorded_of_run {command : Command} {files : List Path}
    (h : w.run command = (.ok files, w')) (hp : p ∈ files) : Recorded w w' p := by
  obtain ⟨hstart, rfl, rfl⟩ := run_eq_ok h
  refine ⟨w.calls.length, command.call, Nat.le_refl _, ?_, ?_⟩
  · rw [calls_watch]
    exact List.getElem?_concat_length
  · show p ∈ (w.nextRun command).recorded
    rw [EncoderRun.recorded, hstart]
    exact hp

end Workbench

open Workbench

/-- A work that accounts for the files `before` and for those that it makes. -/
structure Tidy {α : Type} (before : List Path) (work : Work α) (made : α → List Path) : Prop where
  ok : ∀ {w w' : Workbench} {a : α}, w.Removable → work.outcome w = (.ok a, w') →
    w.Follows w' ∧ ∀ p, p ∈ before ∨ w.Recorded w' p → p ∈ made a
  error : ∀ {w w' : Workbench} {e : Error}, w.Removable → work.outcome w = (.error e, w') →
    w.Follows w' ∧ ∀ p, p ∈ before ∨ w.Recorded w' p → w'.disk.isFile p = false

namespace Tidy

variable {α β : Type} {before : List Path} {made : α → List Path} {made' : β → List Path}

theorem pure {a : α} (h : ∀ p ∈ before, p ∈ made a) : Tidy before (pure a : Work α) made := by
  constructor
  · intro w w' b _ hdone
    cases hdone
    refine ⟨Follows.refl w, ?_⟩
    intro p hp
    exact h p (hp.resolve_right (not_recorded rfl))
  · intro w w' e _ hdone
    cases hdone

theorem of_quiet {work : Work α}
    (h : ∀ w, (work.outcome w).2.calls = w.calls ∧ w.Follows (work.outcome w).2) :
    Tidy [] work fun _ => [] := by
  constructor
  · intro w w' a _ hdone
    obtain ⟨hcalls, hfollows⟩ := h w
    rw [hdone] at hcalls hfollows
    exact ⟨hfollows, fun p hp => absurd (hp.resolve_left List.not_mem_nil) (not_recorded hcalls)⟩
  · intro w w' e _ hdone
    obtain ⟨hcalls, hfollows⟩ := h w
    rw [hdone] at hcalls hfollows
    exact ⟨hfollows, fun p hp => absurd (hp.resolve_left List.not_mem_nil) (not_recorded hcalls)⟩

/-- The second work accounts for the files of the first one. -/
theorem bind {x : Work α} {f : α → Work β} (hx : Tidy before x made)
    (hf : ∀ a, Tidy (made a) (f a) made') : Tidy before (x >>= f) made' := by
  constructor
  · intro w w' b hremove hdone
    obtain ⟨a, w1, hfirst, hrest⟩ := Work.exists_of_bind_eq_ok hdone
    obtain ⟨hfollows, hmade⟩ := hx.ok hremove hfirst
    obtain ⟨hfollows', hmade'⟩ := (hf a).ok (hfollows.removable hremove) hrest
    refine ⟨hfollows.trans hfollows', ?_⟩
    intro p hp
    rcases hp with hp | hp
    · exact hmade' p (Or.inl (hmade p (Or.inl hp)))
    · rcases recorded_cases hfollows hfollows' hp with hp | hp
      · exact hmade' p (Or.inl (hmade p (Or.inr hp)))
      · exact hmade' p (Or.inr hp)
  · intro w w' e hremove hdone
    rcases Work.cases_of_bind_eq_error hdone with hfirst | ⟨a, w1, hfirst, hrest⟩
    · exact hx.error hremove hfirst
    · obtain ⟨hfollows, hmade⟩ := hx.ok hremove hfirst
      obtain ⟨hfollows', hgone⟩ := (hf a).error (hfollows.removable hremove) hrest
      refine ⟨hfollows.trans hfollows', ?_⟩
      intro p hp
      rcases hp with hp | hp
      · exact hgone p (Or.inl (hmade p (Or.inl hp)))
      · rcases recorded_cases hfollows hfollows' hp with hp | hp
        · exact hgone p (Or.inl (hmade p (Or.inr hp)))
        · exact hgone p (Or.inr hp)

theorem compile (count : Nat) (commands : Site → (Nat → String) → Except Error α) :
    Tidy [] (Work.compile count commands) fun _ => [] :=
  of_quiet fun _ => ⟨rfl, List.prefix_refl _, rfl, rfl⟩

theorem ofExcept (result : Except Error α) : Tidy [] (Work.ofExcept result) fun _ => [] :=
  of_quiet fun w => ⟨rfl, Follows.refl w⟩

theorem runCommand (command : Command) : Tidy [] (Work.runCommand command) fun files => files := by
  have hrecorded : ∀ {w w' : Workbench} {p : Path}, w'.calls = w.calls ++ [command.call] →
      p ∈ [] ∨ w.Recorded w' p → p ∈ (w.nextRun command).recorded :=
    fun hcalls hp => mem_recorded hcalls (hp.resolve_left List.not_mem_nil)
  constructor
  · intro w w' files _ hdone
    obtain ⟨hstart, rfl, rfl⟩ := run_eq_ok hdone
    refine ⟨(follows_called w command).trans (follows_watch _ _), ?_⟩
    intro p hp
    have hannounced := hrecorded (calls_watch _ _) hp
    rw [EncoderRun.recorded, hstart] at hannounced
    exact hannounced
  · intro w w' e hremove hdone
    rcases run_eq_error hdone with ⟨hstart, rfl⟩ | ⟨hstart, rfl⟩
    · refine ⟨follows_called w command, ?_⟩
      intro p hp
      have hannounced := hrecorded rfl hp
      rw [EncoderRun.recorded, hstart] at hannounced
      exact absurd hannounced List.not_mem_nil
    · have hwatched := (follows_called w command).trans (follows_watch _ (w.nextRun command))
      refine ⟨hwatched.trans (follows_removeFiles _ _), ?_⟩
      intro p hp
      have hannounced := hrecorded (calls_watch _ _) hp
      rw [EncoderRun.recorded, hstart] at hannounced
      exact not_isFile_removeFiles (hwatched.removable hremove) p hannounced

theorem onFailure {work : Work α} (h : Tidy [] work made) (before : List Path) :
    Tidy before (Work.onFailure work (Work.removeFiles before)) fun a => before ++ made a := by
  constructor
  · intro w w' a hremove hdone
    rw [Work.outcome_onFailure] at hdone
    split at hdone
    · rename_i b w1 hwork
      cases hdone
      obtain ⟨hfollows, hmade⟩ := h.ok hremove hwork
      refine ⟨hfollows, ?_⟩
      intro p hp
      rw [List.mem_append]
      exact hp.imp_right fun hp => hmade p (Or.inr hp)
    · cases hdone
  · intro w w' e hremove hdone
    rw [Work.outcome_onFailure] at hdone
    split at hdone
    · cases hdone
    · rename_i e' w1 hwork
      cases hdone
      obtain ⟨hfollows, hgone⟩ := h.error hremove hwork
      refine ⟨hfollows.trans (follows_removeFiles w1 before), ?_⟩
      intro p hp
      rcases hp with hp | hp
      · exact not_isFile_removeFiles (hfollows.removable hremove) p hp
      · exact not_isFile_of_within (within_removeFiles w1.disk before) (hgone p (Or.inr hp))

end Tidy

end Montage
