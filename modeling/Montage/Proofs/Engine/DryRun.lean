import Montage.Proofs.Disk.Removal
import Montage.Proofs.Engine.Cleanup
import Montage.Proofs.Engine.Parameters

/-!
# A run does what a dry run shows

A dry run and a run of an operation begin alike: they compile with the same identifiers. So if
the dry run fails then so does the run, before it calls an encoder, and otherwise the calls of
the run are those of the commands that the dry run gives.

That both ways of doing it agree is `AreTwins`. An operation with one command is put together
of steps that call no encoder, `Quiet`, and one that does, `Calls`.

Images are compiled and run in turn. What a run changes has no influence on what is compiled
next (`Workbench.Ran`), and what makes one image fail makes the first one fail
(`compileImages_eq_error`). So the calls are those of the commands up to the first run that
does not yield its file (`Workbench.CallsInOrder`).
-/

namespace Montage

structure EncoderRun.Yields (run : EncoderRun) : Prop where
  started : run.startFailure = none
  read : run.streamFailure = none
  awaited : run.waitFailure = none
  success : run.status.isSuccess = true
  single : run.files.length = 1

namespace Workbench

variable {w w' : Workbench} {command : Command}

theorem freshIds_useIds (w : Workbench) :
    (w.useIds 1).freshIds = fun k => w.freshIds (k + 1) := by
  funext k
  exact congrArg w.ids (by simp only [useIds]; omega)

/-- The run that answers a command behind `k` further calls. -/
def answer (w : Workbench) (k : Nat) (command : Command) : EncoderRun :=
  w.encoders (w.calls.length + k) command.call

structure Idle (w w' : Workbench) : Prop where
  calls : w'.calls = w.calls
  encoders : w'.encoders = w.encoders

theorem Idle.trans {w'' : Workbench} (h : Idle w w') (h' : Idle w' w'') : Idle w w'' :=
  ⟨h'.calls.trans h.calls, h'.encoders.trans h.encoders⟩

/-- The command was run. All that a later command depends on is as before. -/
structure Ran (w w' : Workbench) (command : Command) : Prop where
  calls : w'.calls = w.calls ++ [command.call]
  encoders : w'.encoders = w.encoders
  freshIds : w'.freshIds = w.freshIds
  settings : w'.settings = w.settings
  workingDirectory : w'.disk.workingDirectory = w.disk.workingDirectory

theorem Ran.site (h : Ran w w' command) : w'.site = w.site := by
  unfold Workbench.site Disk.cwd
  rw [h.settings, h.workingDirectory]

theorem Ran.answer (h : Ran w w' command) (k : Nat) : w'.answer k = w.answer (k + 1) := by
  funext command'
  unfold Workbench.answer
  rw [h.encoders, h.calls, List.length_append, List.length_singleton, Nat.add_assoc, Nat.add_comm 1]

theorem Ran.removeFiles (h : Ran w w' command) (files : List Path) :
    Ran w { w' with disk := removeFiles w'.disk files } command where
  calls := h.calls
  encoders := h.encoders
  freshIds := h.freshIds
  settings := h.settings
  workingDirectory := (workingDirectory_removeFiles _ _).trans h.workingDirectory

theorem ran_called (w : Workbench) (command : Command) : Ran w (w.called command) command :=
  ⟨rfl, rfl, rfl, rfl, rfl⟩

theorem ran_watch (w : Workbench) (command : Command) (run : EncoderRun) :
    Ran w ((w.called command).watch run) command where
  calls := calls_watch _ _
  encoders := encoders_watch _ _
  freshIds := by
    unfold watch
    cases run.terminable <;> cases run.interrupted <;> rfl
  settings := by
    unfold watch
    cases run.terminable <;> cases run.interrupted <;> rfl
  workingDirectory := by
    rw [disk_watch]
    exact workingDirectory_writes _ _

theorem ran_run (w : Workbench) (command : Command) : Ran w (w.run command).2 command := by
  cases hrun : w.run command with
  | mk result w' =>
    cases result with
    | ok files =>
      obtain ⟨_, _, rfl⟩ := run_eq_ok hrun
      exact ran_watch w command _
    | error e =>
      rcases run_eq_error hrun with ⟨_, rfl⟩ | ⟨_, rfl⟩
      · exact ran_called w command
      · exact (ran_watch w command _).removeFiles _

/-- Between the two workbenches the commands are run in order, all of them if every run yields
its file. The first run that does not yield is the last one. -/
structure CallsInOrder (w w' : Workbench) (commands : List Command) : Prop where
  all : (∀ k command, commands[k]? = some command → (w.answer k command).Yields) →
    w'.calls = w.calls ++ commands.map Command.call
  upTo : ∀ k command, commands[k]? = some command → ¬ (w.answer k command).Yields →
    (∀ j < k, ∀ command, commands[j]? = some command → (w.answer j command).Yields) →
    w'.calls = w.calls ++ (commands.take (k + 1)).map Command.call

theorem CallsInOrder.single (h : w'.calls = w.calls ++ [command.call]) :
    w.CallsInOrder w' [command] where
  all _ := h
  upTo k last hk _ _ := by
    rw [List.take_of_length_le (Nat.le_add_left 1 k)]
    exact h

theorem CallsInOrder.of_idle {w1 : Workbench} {commands : List Command}
    (h : w1.CallsInOrder w' commands) (hidle : w.Idle w1) : w.CallsInOrder w' commands := by
  have hanswer : w1.answer = w.answer := by
    funext k command
    rw [answer, answer, hidle.calls, hidle.encoders]
  obtain ⟨hall, hupTo⟩ := h
  rw [hidle.calls, hanswer] at hall hupTo
  exact ⟨hall, hupTo⟩

theorem CallsInOrder.cons {w1 : Workbench} {others : List Command}
    (h : w1.CallsInOrder w' others) (hran : Ran w w1 command)
    (hyields : (w.answer 0 command).Yields) : w.CallsInOrder w' (command :: others) where
  all hall := by
    have hlater : ∀ k c, others[k]? = some c → (w1.answer k c).Yields := by
      intro k c hk
      rw [hran.answer]
      exact hall (k + 1) c hk
    rw [h.all hlater, hran.calls, List.append_assoc]
    rfl
  upTo k last hk hlost hbefore := by
    cases k with
    | zero =>
      obtain rfl := Option.some.inj hk
      exact absurd hyields hlost
    | succ k =>
      rw [← hran.answer] at hlost
      have hlater : ∀ j < k, ∀ c, others[j]? = some c → (w1.answer j c).Yields := by
        intro j hj c hc
        rw [hran.answer]
        exact hbefore (j + 1) (Nat.succ_lt_succ hj) c hc
      rw [h.upTo k last hk hlost hlater, hran.calls, List.append_assoc]
      rfl

theorem CallsInOrder.of_not_yields (hlost : ¬ (w.answer 0 command).Yields)
    (h : w'.calls = w.calls ++ [command.call]) (others : List Command) :
    w.CallsInOrder w' (command :: others) where
  all hall := absurd (hall 0 command rfl) hlost
  upTo k last _ _ hbefore := by
    cases k with
    | zero => exact h
    | succ k => exact absurd (hbefore 0 (Nat.succ_pos k) command rfl) hlost

end Workbench

open Workbench

section

variable {α β : Type} {command : Command}

def Quiet (work : Work α) : Prop := ∀ w : Workbench, w.Idle (work.outcome w).2

/-- The work calls an encoder for this command, and for no other. -/
def Calls (command : Command) (work : Work α) : Prop :=
  ∀ w, (work.outcome w).2.calls = w.calls ++ [command.call]

theorem idle_bind {x : Work α} {f : α → Work β} (hf : ∀ a, Quiet (f a)) (w : Workbench) :
    (x.outcome w).2.Idle ((x >>= f).outcome w).2 := by
  rw [Work.outcome_bind]
  cases x.outcome w with
  | mk result w1 =>
    cases result with
    | error e => exact ⟨rfl, rfl⟩
    | ok a => exact hf a w1

theorem error_bind {x : Work α} {f : α → Work β} {w : Workbench} {e : Error}
    (h : (x.outcome w).1 = .error e) : ((x >>= f).outcome w).1 = .error e := by
  rw [Work.outcome_bind]
  cases hdone : x.outcome w with
  | mk result w1 =>
    rw [hdone] at h
    obtain rfl : result = .error e := h
    rfl

theorem Quiet.bind {x : Work α} {f : α → Work β} (hx : Quiet x) (hf : ∀ a, Quiet (f a)) :
    Quiet (x >>= f) := fun w => (hx w).trans (idle_bind hf w)

theorem Calls.bind {x : Work α} {f : α → Work β} (hx : Calls command x) (hf : ∀ a, Quiet (f a)) :
    Calls command (x >>= f) := fun w => (idle_bind hf w).calls.trans (hx w)

theorem quiet_pure (a : α) : Quiet (pure a : Work α) := fun _ => ⟨rfl, rfl⟩

theorem quiet_compile (count : Nat) (commands : Site → (Nat → String) → Except Error α) :
    Quiet (Work.compile count commands) := fun _ => ⟨rfl, rfl⟩

theorem calls_runCommand (command : Command) : Calls command (Work.runCommand command) :=
  fun w => (ran_run w command).calls

theorem ran_runSingle (w : Workbench) (command : Command) :
    Ran w ((Work.runSingle command).outcome w).2 command := by
  have hran := ran_run w command
  unfold Work.runSingle
  rw [Work.outcome_bind, Work.outcome_runCommand]
  cases hrun : w.run command with
  | mk result w1 =>
    rw [hrun] at hran
    cases result with
    | error e => exact hran
    | ok files =>
      dsimp only
      unfold Work.single
      split
      · exact hran
      · exact hran.removeFiles _

theorem calls_runSingle (command : Command) : Calls command (Work.runSingle command) :=
  fun w => (ran_runSingle w command).calls

theorem quiet_nameFiles (command : Command) (files : List Path) :
    Quiet (nameFiles command files) := by
  intro w
  unfold nameFiles
  split
  · rw [outcome_renameVariants]
    split
    · exact ⟨rfl, rfl⟩
    · exact ⟨rfl, rfl⟩
  · exact ⟨rfl, rfl⟩

theorem quiet_create (inputs : List ConcatInput) : Quiet (TrackList.create inputs) := by
  intro w
  obtain ⟨d, _, hdone⟩ := Tidy.outcome_create inputs w
  rw [hdone]
  exact ⟨rfl, rfl⟩

theorem quiet_prepareList (request : ConcatRequest) : Quiet request.prepareList := by
  unfold ConcatRequest.prepareList
  refine Quiet.bind (fun _ => ⟨rfl, rfl⟩) fun _ => ?_
  split
  · exact (quiet_create request.inputs).bind fun _ => quiet_pure _
  · exact quiet_pure _

/-- The two fail alike, the second one without a call, or the first one gives commands, `count`
of them, and the second one runs them. -/
def AreTwins (count : Nat) (dry : Work (List Command)) (run : Work α) : Prop :=
  ∀ w, (∃ e, (dry.outcome w).1 = .error e ∧ (run.outcome w).1 = .error e ∧
      (run.outcome w).2.calls = w.calls) ∨
    ∃ commands, (dry.outcome w).1 = .ok commands ∧ commands.length = count ∧
      w.CallsInOrder (run.outcome w).2 commands

theorem Calls.areTwins {run : Work α} (h : Calls command run) : AreTwins 1 (pure [command]) run :=
  fun w => .inr ⟨[command], rfl, rfl, CallsInOrder.single (h w)⟩

namespace AreTwins

variable {count : Nat}

theorem bind {x : Work β} {dry : β → Work (List Command)} {run : β → Work α}
    (hx : Quiet x) (h : ∀ b, AreTwins count (dry b) (run b)) :
    AreTwins count (x >>= dry) (x >>= run) := by
  intro w
  have hquiet := hx w
  rw [Work.outcome_bind, Work.outcome_bind]
  cases hdone : x.outcome w with
  | mk result w1 =>
    rw [hdone] at hquiet
    cases result with
    | error e => exact .inl ⟨e, rfl, rfl, hquiet.calls⟩
    | ok b =>
      rcases h b w1 with ⟨e, hdry, hrun, hcalls⟩ | ⟨commands, hdry, hcount, horder⟩
      · exact .inl ⟨e, hdry, hrun, hcalls.trans hquiet.calls⟩
      · exact .inr ⟨commands, hdry, hcount, horder.of_idle hquiet⟩

theorem bind_right {dry : Work (List Command)} {run : Work β} {f : β → Work α}
    (h : AreTwins count dry run) (hf : ∀ b, Quiet (f b)) : AreTwins count dry (run >>= f) := by
  intro w
  have hcalls := (idle_bind (x := run) hf w).calls
  rcases h w with ⟨e, hdry, hrun, hquiet⟩ | ⟨commands, hdry, hcount, horder⟩
  · exact .inl ⟨e, hdry, error_bind hrun, hcalls.trans hquiet⟩
  · refine .inr ⟨commands, hdry, hcount, fun hall => ?_, fun k command hk hlost hbefore => ?_⟩
    · exact hcalls.trans (horder.all hall)
    · exact hcalls.trans (horder.upTo k command hk hlost hbefore)

theorem during {dry : Work (List Command)} {run : Work α} (h : AreTwins count dry run)
    (list : Option Path) :
    AreTwins count (TrackList.during list dry) (TrackList.during list run) := by
  intro w
  rw [Tidy.outcome_during, Tidy.outcome_during]
  rcases h w with hfailed | ⟨commands, hdry, hcount, horder⟩
  · exact .inl hfailed
  · exact .inr ⟨commands, hdry, hcount, horder.all, horder.upTo⟩

end AreTwins

end

section

variable {command : Command} {w : Workbench}

theorem single_eq_ok_iff {files : List Path} {file : Path} :
    ((Work.single command files).outcome w).1 = .ok file ↔ files = [file] := by
  unfold Work.single
  split
  · rename_i only
    show Except.ok only = _ ↔ _
    rw [Except.ok.injEq, List.singleton_inj]
  · rename_i hmany
    constructor
    · intro h
      cases h
    · rintro rfl
      exact absurd rfl (hmany file)

theorem runSingle_eq_ok_iff {file : Path} :
    ((Work.runSingle command).outcome w).1 = .ok file ↔ (w.run command).1 = .ok [file] := by
  unfold Work.runSingle
  rw [Work.outcome_bind, Work.outcome_runCommand]
  cases w.run command with
  | mk result w1 =>
    cases result with
    | error e => simp
    | ok files =>
      dsimp only
      rw [single_eq_ok_iff, Except.ok.injEq]

/-- One file is made of a run that yields it, and of no other run. -/
theorem exists_runSingle_iff :
    (∃ file, ((Work.runSingle command).outcome w).1 = .ok file) ↔ (w.nextRun command).Yields := by
  constructor
  · rintro ⟨file, h⟩
    obtain ⟨hstarted, hresult⟩ := run_eq_ok_iff.1 (runSingle_eq_ok_iff.1 h)
    obtain ⟨hread, hawaited, hsuccess, hfiles⟩ := EncoderRun.result_eq_ok_iff.1 hresult
    exact ⟨hstarted, hread, hawaited, hsuccess, by rw [hfiles]; rfl⟩
  · intro h
    obtain ⟨file, hfile⟩ := List.length_eq_one_iff.1 h.single
    refine ⟨file, runSingle_eq_ok_iff.2 (run_eq_ok_iff.2 ⟨h.started, ?_⟩)⟩
    exact EncoderRun.result_eq_ok_iff.2 ⟨h.read, h.awaited, h.success, hfile⟩

end

section

variable {source : Path} {p : Profile} {properties : Parameters}
  {all rest : List Parameters} {w : Workbench} {command : Command} {commands : List Command}
  {e : Error}

theorem compileImages_eq_error {site : Site} {ids : Nat → String}
    (hsame : ∀ q ∈ all, SameFragments properties q)
    (h : compileImages site ids source p all = .error e) (id : String) :
    compileEncode site id source p properties = .error e := by
  induction all generalizing ids with
  | nil => cases h
  | cons q all ih =>
    rw [List.forall_mem_cons] at hsame
    unfold compileImages at h
    cases hfirst : compileEncode site (ids 0) source p q with
    | error e' =>
      rw [hfirst] at h
      obtain rfl := Except.error.inj h
      exact compile_eq_error hsame.1.symm hfirst id
    | ok command =>
      rw [hfirst] at h
      change compileImages _ _ _ _ _ >>= _ = _ at h
      cases hrest : compileImages site (fun k => ids (k + 1)) source p all with
      | error e' =>
        rw [hrest] at h
        obtain rfl := Except.error.inj h
        exact ih hsame.2 hrest
      | ok commands =>
        rw [hrest] at h
        cases h

theorem exists_of_compileImages_cons {site : Site} {ids : Nat → String}
    (h : compileImages site ids source p (properties :: rest) = .ok commands) :
    ∃ command others, commands = command :: others ∧
      compileEncode site (ids 0) source p properties = .ok command ∧
      compileImages site (fun k => ids (k + 1)) source p rest = .ok others := by
  obtain ⟨command, hfirst, h⟩ := bind_eq_ok_iff.1 h
  obtain ⟨others, hrest, h⟩ := bind_eq_ok_iff.1 h
  exact ⟨command, others, (pure_eq_ok_iff.1 h).symm, hfirst, hrest⟩

theorem makeImages_of_error
    (h : compileEncode w.site (w.freshIds 0) source p properties = .error e) (made : List Path)
    (rest : List Parameters) :
    ((makeImages source p made (properties :: rest)).outcome w).1 = .error e ∧
      ((makeImages source p made (properties :: rest)).outcome w).2.calls = w.calls := by
  rw [makeImages, Work.outcome_bind, Work.outcome_onFailure, Work.outcome_bind,
    Work.outcome_compile, h]
  exact ⟨rfl, rfl⟩

theorem makeImages_of_ok
    (h : compileEncode w.site (w.freshIds 0) source p properties = .ok command) (made : List Path)
    (rest : List Parameters) :
    ((w.answer 0 command).Yields → ∃ image w', Ran (w.useIds 1) w' command ∧
      (makeImages source p made (properties :: rest)).outcome w =
        (makeImages source p (made ++ [image]) rest).outcome w') ∧
    (¬ (w.answer 0 command).Yields →
      ((makeImages source p made (properties :: rest)).outcome w).2.calls =
        w.calls ++ [command.call]) := by
  have hran := ran_runSingle (w.useIds 1) command
  have hyields : _ ↔ (w.answer 0 command).Yields := exists_runSingle_iff (w := w.useIds 1)
  rw [makeImages, Work.outcome_bind, Work.outcome_onFailure, Work.outcome_bind,
    Work.outcome_compile, h, ← hyields]
  dsimp only
  cases hdone : (Work.runSingle command).outcome (w.useIds 1) with
  | mk result w' =>
    rw [hdone] at hran
    cases result with
    | ok image => exact ⟨fun _ => ⟨image, w', hran, rfl⟩, fun hnone => absurd ⟨image, rfl⟩ hnone⟩
    | error e => exact ⟨fun ⟨_, himage⟩ => (nomatch himage), fun _ => hran.calls⟩

theorem callsInOrder_makeImages
    (h : compileImages w.site w.freshIds source p all = .ok commands) (made : List Path) :
    w.CallsInOrder ((makeImages source p made all).outcome w).2 commands := by
  induction all generalizing w made commands with
  | nil =>
    obtain rfl := Except.ok.inj h
    exact ⟨fun _ => (List.append_nil _).symm, fun k command hcommand => (nomatch hcommand)⟩
  | cons properties all ih =>
    obtain ⟨command, others, rfl, hfirst, hrest⟩ := exists_of_compileImages_cons h
    obtain ⟨hnext, hlast⟩ := makeImages_of_ok hfirst made all
    by_cases hyields : (w.answer 0 command).Yields
    · obtain ⟨image, w', hran, hdone⟩ := hnext hyields
      rw [hdone]
      -- the others are compiled as in the dry run
      have hothers : compileImages w'.site w'.freshIds source p all = .ok others := by
        rw [hran.site, hran.freshIds, freshIds_useIds]
        exact hrest
      exact ((ih hothers (made ++ [image])).cons hran hyields).of_idle ⟨rfl, rfl⟩
    · exact CallsInOrder.of_not_yields hyields (hlast hyields) others

theorem length_compileImages {site : Site} {ids : Nat → String}
    (h : compileImages site ids source p all = .ok commands) : commands.length = all.length := by
  induction all generalizing ids commands with
  | nil =>
    obtain rfl := Except.ok.inj h
    rfl
  | cons properties all ih =>
    obtain ⟨command, others, rfl, _, hrest⟩ := exists_of_compileImages_cons h
    rw [List.length_cons, List.length_cons, ih hrest]

theorem areTwins_makeImages (source : Path) (p : Profile)
    (hsame : ∀ q ∈ all, SameFragments properties q) :
    AreTwins all.length
      (Work.compile all.length fun site ids => compileImages site ids source p all)
      (makeImages source p [] all) := by
  intro w
  rw [Work.outcome_compile]
  cases hcompiled : compileImages w.site w.freshIds source p all with
  | error e =>
    left
    cases all with
    | nil => cases hcompiled
    | cons first rest =>
      -- a later image has failed only if this one has
      have hfirst := (hsame first List.mem_cons_self).symm
      have hfailed := compileImages_eq_error (fun q hq => hfirst.trans (hsame q hq)) hcompiled
        (w.freshIds 0)
      obtain ⟨herror, hcalls⟩ := makeImages_of_error hfailed [] rest
      exact ⟨e, rfl, herror, hcalls⟩
  | ok commands =>
    exact .inr ⟨commands, rfl, length_compileImages hcompiled, callsInOrder_makeImages hcompiled []⟩

end

theorem sameFragments_of_mem_imagesProperties {properties : Parameters} {times : List Float}
    (q : Parameters) (h : q ∈ imagesProperties properties times) : SameFragments properties q := by
  unfold imagesProperties at h
  split at h
  · rw [List.mem_singleton] at h
    rw [h]
    exact SameFragments.refl properties
  · obtain ⟨time, _, rfl⟩ := List.mem_map.1 h
    exact (SameFragments.refl properties).insert (by decide) _

theorem length_imagesProperties (properties : Parameters) (times : List Float) :
    (imagesProperties properties times).length = max 1 times.length := by
  unfold imagesProperties
  cases times with
  | nil => rfl
  | cons time times => simp

namespace Operation

def commandCount : Operation → Nat
  | images _ times _ _ => max 1 times.length
  | _ => 1

theorem areTwins_dryRun_run (op : Operation) : AreTwins op.commandCount op.dryRun op.run := by
  cases op with
  | process sources p properties =>
    refine AreTwins.bind (quiet_compile 1 _) fun command => ?_
    exact ((calls_runCommand command).bind fun files => quiet_pure _).areTwins
  | make job p properties =>
    refine AreTwins.bind (quiet_compile 1 _) fun command => ?_
    exact ((calls_runSingle command).bind fun file => quiet_pure _).areTwins
  | images source times p properties =>
    have hsame : ∀ q ∈ imagesProperties properties times, SameFragments properties q :=
      sameFragments_of_mem_imagesProperties
    have himages := areTwins_makeImages source p hsame
    rw [length_imagesProperties] at himages
    exact himages.bind_right fun files => quiet_pure _
  | concat request p properties =>
    refine AreTwins.bind (quiet_prepareList request) fun list => AreTwins.during ?_ list
    refine AreTwins.bind (quiet_compile 1 _) fun command => ?_
    exact ((calls_runSingle command).bind fun file => quiet_pure _).areTwins
  | edit request profiles =>
    refine AreTwins.bind (quiet_compile profiles.length _) fun command => ?_
    refine ((calls_runCommand command).bind fun files => ?_).areTwins
    exact (quiet_nameFiles command files).bind fun files => fun _ => ⟨rfl, rfl⟩

/-- A run fails as the dry run does, without a call. Otherwise its calls are those of the commands
of the dry run, up to the first run that does not yield its file. -/
theorem run_matches_dryRun (op : Operation) (w : Workbench) :
    (∀ e, (op.dryRun.outcome w).1 = .error e →
      (op.run.outcome w).1 = .error e ∧ (op.run.outcome w).2.calls = w.calls) ∧
    ∀ commands, (op.dryRun.outcome w).1 = .ok commands → commands.length = op.commandCount ∧
      w.CallsInOrder (op.run.outcome w).2 commands := by
  rcases areTwins_dryRun_run op w with ⟨e, hdry, hrun, hcalls⟩ | ⟨commands, hdry, hcount, horder⟩
  · rw [hdry]
    refine ⟨fun e' h => ?_, fun commands h => (nomatch h)⟩
    obtain rfl := Except.error.inj h
    exact ⟨hrun, hcalls⟩
  · rw [hdry]
    refine ⟨fun e h => (nomatch h), fun commands' h => ?_⟩
    obtain rfl := Except.ok.inj h
    exact ⟨hcount, horder⟩

/-- The second of three images is not made, and then the third one is not tried. -/
theorem run_matches_dryRun_thumbnails :
    let p : Profile :=
      { identifier := "thumbnail", name := "t", input := .visual, output := .image
        extensions := Std.TreeMap.ofList [(Template.commandKey,
          "-ss #\x7btime\x7d -i #\x7bin.video.path\x7d #\x7bout.dir\x7d/#\x7bout.name\x7d.png")] }
    let op : Operation := .images ⟨"/in/talk.mp4"⟩ [1, 5.25, 60] p ∅
    let w : Workbench :=
      { ids := toString, marks := []
        encoders := fun k _ =>
          if k = 1 then { status := .exited 1 }
          else { messages := ["Output #0, image2, to '/out/talk.png':"] } }
    ∃ commands, (op.dryRun.outcome w).1 = .ok commands ∧ commands.length = 3 ∧
      (op.run.outcome w).2.calls = (commands.take 2).map Command.call := by
  intro p op w
  obtain ⟨_, hcompiled⟩ := run_matches_dryRun op w
  cases hdry : (op.dryRun.outcome w).1 with
  | error e =>
    -- what the first image is made of does not depend on its time
    have hfailed := compileImages_eq_error sameFragments_of_mem_imagesProperties hdry "id"
    have hmade : (compileEncode w.site "id" ⟨"/in/talk.mp4"⟩ p ∅).toOption.isSome = true := by
      decide +kernel
    rw [hfailed] at hmade
    cases hmade
  | ok commands =>
    obtain ⟨hlength, horder⟩ := hcompiled commands hdry
    have hthree : commands.length = 3 := hlength
    refine ⟨commands, rfl, hthree, ?_⟩
    have hsecond : commands[1]? = some commands[1] := List.getElem?_eq_getElem (by omega)
    have hlost (command : Command) : ¬ (w.answer 1 command).Yields := by
      intro h
      have hsuccess : (ExitStatus.exited 1).isSuccess = true := h.success
      exact absurd hsuccess (by decide)
    refine horder.upTo 1 _ hsecond (hlost _) ?_
    intro j hj command _
    obtain rfl : j = 0 := by omega
    have hfiles : EncoderRun.files
        { messages := ["Output #0, image2, to '/out/talk.png':"] } = [⟨"/out/talk.png"⟩] := by
      decide +kernel
    exact ⟨rfl, rfl, rfl, rfl, congrArg List.length hfiles⟩

end Operation

end Montage
