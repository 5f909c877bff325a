import Montage.Proofs.Engine.EditWiring
import Montage.Proofs.Engine.Run
import Montage.Proofs.Engine.Work
import Montage.Proofs.Output.Delivery

/-!
# Which file goes to which slot

The result of an edit without a group has one slot for each profile, in the
order of the profiles. What is in a slot depends on its own profile and on the
set of files that the encoder announced: neither the order of the announcements
nor profiles that make nothing move a file to another slot. A path may be announced as
it is expected, or lead to the same file through links.
-/

namespace Montage

theorem Disk.sameFile_iff {d : Disk} {p q : Path} :
    d.sameFile p q = true ↔ p.same q = true ∨
      ∃ p' q', d.canonical p = .ok p' ∧ d.canonical q = .ok q' ∧ p'.same q' = true := by
  rw [sameFile, Bool.or_eq_true]
  refine or_congr_right ?_
  cases d.canonical p <;> cases d.canonical q <;> simp

theorem getElem?_assignSlots {d : Disk} {command : Command} {written : List Path}
    (hadaptive : command.adaptive = false) {n : Nat} {slot : OutputSlot}
    (hslot : command.slots[n]? = some slot) {file : Path} :
    (assignSlots d command written)[n]? = some (some file) ↔
      slot.file = some file ∧ ∃ q ∈ written, d.sameFile q file = true := by
  rw [assignSlots, hadaptive, if_neg Bool.false_ne_true, Command.outputs, List.getElem?_map,
    List.getElem?_map, hslot]
  simp [Option.filter_eq_some_iff]

theorem length_assignSlots {d : Disk} {command : Command} {written : List Path}
    (hadaptive : command.adaptive = false) :
    (assignSlots d command written).length = command.slots.length := by
  simp [assignSlots, hadaptive, Command.outputs]

namespace EditRequest

variable {w w' : Workbench} {request : EditRequest} {profiles : List Profile}
  {slots : List (Option Path)}

theorem exists_plan_of_run (h : (request.run profiles).outcome w = (.ok slots, w')) :
    ∃ plan, request.plan w.site w.freshIds profiles = .ok plan := by
  obtain ⟨command, w1, hcompile, _⟩ := Work.exists_of_bind_eq_ok h
  have hcommand : request.compile w.site w.freshIds profiles = .ok command :=
    congrArg Prod.fst hcompile
  obtain ⟨plan, hplan, _⟩ := map_eq_ok_iff.1 hcommand
  exact ⟨plan, hplan⟩

theorem exists_of_run {plan : Plan} (hadaptive : plan.outputs.adaptive = false)
    (hplan : request.plan w.site w.freshIds profiles = .ok plan)
    (h : (request.run profiles).outcome w = (.ok slots, w')) :
    ∃ files, (w.useIds profiles.length).run (plan.command w.settings.encoder) = (.ok files, w') ∧
      slots = assignSlots w'.disk (plan.command w.settings.encoder) files := by
  obtain ⟨command, w1, hcompile, h⟩ := Work.exists_of_bind_eq_ok h
  rw [Work.outcome_compile, EditRequest.compile, hplan] at hcompile
  cases hcompile
  obtain ⟨files, w2, hrun, h⟩ := Work.exists_of_bind_eq_ok h
  obtain ⟨named, w3, hname, h⟩ := Work.exists_of_bind_eq_ok h
  have hkept : (plan.command w.site.settings.encoder).adaptive = false := hadaptive
  rw [nameFiles, hkept, if_neg Bool.false_ne_true, Work.outcome_pure] at hname
  cases hname
  cases h
  exact ⟨files, hrun, rfl⟩

/-- Slot `n` is decided by profile `n` and by the set of announced files. -/
theorem slots_of_run (hdelivery : ∀ p ∈ profiles, p.adaptiveType? = none)
    (h : (request.run profiles).outcome w = (.ok slots, w')) :
    ∃ first params call, request.inputs.head? = some first ∧
      parameters w.site first = .ok params ∧ w'.calls = w.calls ++ [call] ∧
        slots.length = profiles.length ∧ ∀ n p, profiles[n]? = some p →
          ∃ arguments options,
            FanOut.Rewrites params (1 < profiles.length) p (w.freshIds n) arguments options ∧
              ∀ file, slots[n]? = some (some file) ↔
                options ≠ [] ∧ arguments.getLast? = some file.text ∧ ¬ IsDiscarded file.text ∧
                  ∃ q ∈ (w.encoders w.calls.length call).files, q.same file = true ∨
                    ∃ q' file', w'.disk.canonical q = .ok q' ∧
                      w'.disk.canonical file = .ok file' ∧ q'.same file' = true := by
  obtain ⟨plan, hplan⟩ := exists_plan_of_run h
  obtain ⟨first, params, hfirst, hparams, _, houtputs⟩ := exists_of_plan hplan
  obtain ⟨hadaptive, hlength, hplaces⟩ := FanOut.slots_of_build hdelivery houtputs
  obtain ⟨files, hrun, rfl⟩ := exists_of_run hadaptive hplan h
  obtain ⟨_, hfiles, hend⟩ := Workbench.run_eq_ok hrun
  have hcalls : w'.calls = w.calls ++ [(plan.command w.settings.encoder).call] := by
    rw [hend, Workbench.calls_watch]
    rfl
  refine ⟨first, params, (plan.command w.settings.encoder).call, hfirst, hparams, hcalls, ?_, ?_⟩
  · rw [length_assignSlots hadaptive]
    exact hlength
  · intro n p hp
    obtain ⟨arguments, options, hrewrites, hslot⟩ := hplaces n p hp
    refine ⟨arguments, options, hrewrites, ?_⟩
    intro file
    simp only [← Disk.sameFile_iff]
    rw [getElem?_assignSlots hadaptive hslot, hfiles]
    show (if options ≠ [] then targetOf? arguments else none) = some file ∧ _ ↔ _
    by_cases hoptions : options = []
    · simp [hoptions]
    · rw [if_pos hoptions, targetOf?_eq_some_iff, and_assoc]
      exact (and_iff_right hoptions).symm

/-- Four profiles, of which the second discards its output and the last one is not announced;
the others are announced in the wrong order, and one of them by a path through a link. -/
theorem slots_of_run_four :
    let profile (command : String) : Profile :=
      { identifier := "p", name := "p", input := .audioVisual, output := .audioVisual
        extensions := Std.TreeMap.ofList [(Template.commandKey, command)] }
    let profiles := [profile "-crf 30 /out/a.mp4", profile "-f null -",
      profile "-crf 20 /out/b.mp4", profile "-crf 20 /out/c.mp4"]
    let encoder : Encoder := fun _ =>
      { messages := ["Output #1, mp4, to '/link/b.mp4':", "Output #0, mp4, to '/out/a.mp4':"]
        writes := [(⟨"/link/b.mp4"⟩, .empty)] }
    let nodes : List (Route × Node) := [(["out"], .directory), (["link"], .link ⟨"out"⟩)]
    let w : Workbench :=
      { ids := fun _ => "id", marks := [], disk := { nodes := Std.TreeMap.ofList nodes }
        encoders := fun _ => encoder }
    let request : EditRequest := { inputs := [⟨"/in/a.mp4"⟩] }
    ∃ slots w', (request.run profiles).outcome w = (.ok slots, w') ∧
      slots = [some ⟨"/out/a.mp4"⟩, none, some ⟨"/out/b.mp4"⟩, none] ∧
        slots.length = profiles.length ∧ ∃ q ∈ (encoder ⟨"", []⟩).files,
          q.same ⟨"/out/b.mp4"⟩ = false ∧ ∃ q' file', w'.disk.canonical q = .ok q' ∧
            w'.disk.canonical ⟨"/out/b.mp4"⟩ = .ok file' ∧ q'.same file' = true := by
  intro profile profiles encoder nodes w request
  have hdelivery : ∀ p ∈ profiles, p.adaptiveType? = none := by decide +kernel
  have hslots : ((request.run profiles).outcome w).1.toOption =
      some [some ⟨"/out/a.mp4"⟩, none, some ⟨"/out/b.mp4"⟩, none] := by decide +kernel
  have hother : ∀ q ∈ (encoder ⟨"", []⟩).files, q.same ⟨"/out/b.mp4"⟩ = false := by
    decide +kernel
  cases h : (request.run profiles).outcome w with
  | mk result w' =>
      rw [h] at hslots
      cases result with
      | error e => cases hslots
      | ok slots =>
          have hresult : slots = [some ⟨"/out/a.mp4"⟩, none, some ⟨"/out/b.mp4"⟩, none] :=
            Option.some.inj hslots
          obtain ⟨_, _, _, _, _, _, hlength, hplaces⟩ := slots_of_run hdelivery h
          obtain ⟨_, _, _, hfile⟩ := hplaces 2 _ rfl
          have hthird : slots[2]? = some (some ⟨"/out/b.mp4"⟩) := by rw [hresult]; rfl
          obtain ⟨_, _, _, q, hannounced, hfound⟩ := (hfile ⟨"/out/b.mp4"⟩).1 hthird
          have hdifferent := hother q hannounced
          refine ⟨slots, w', rfl, hresult, hlength, q, hannounced, hdifferent, ?_⟩
          exact hfound.resolve_left (by rw [hdifferent]; exact Bool.false_ne_true)

end EditRequest

end Montage
