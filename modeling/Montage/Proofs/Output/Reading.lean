import Montage.Proofs.Output.OwnOutput

/-!
# Reading arguments in parts

What an argument asks for decides what is read at the front, and the rest is read on its own.
So a list of arguments may be cut behind any directive that has all its arguments, and the
parts are read one after the other (`parse_append`).
-/

namespace Montage.Directive

variable {profile : String} {variant : Bool} {option : String} {front rest : List String}
  {d : Directive} {ds : List Directive}

theorem parse_cons_of_nestedGraph (h : OptionRole.of variant option = .nestedGraph) :
    parse profile variant (option :: rest) =
      .error (.unsupportedGraph (.nestedGraph profile option)) := by
  rw [parse.eq_def]
  simp only [h]

theorem parse_cons_of_other (h : OptionRole.of variant option = .other) :
    parse profile variant (option :: rest) =
      (parse profile variant rest).map (other option :: ·) := by
  rw [parse.eq_def]
  simp only [h]

theorem exists_parse_cons_cons (hgraph : OptionRole.of variant option ≠ .nestedGraph)
    (hother : OptionRole.of variant option ≠ .other) (value : String) :
    ∃ d : Directive, d.arguments = [option, value] ∧ ∀ rest,
      parse profile variant (option :: value :: rest) =
        (parse profile variant rest).map (d :: ·) := by
  cases hrole : OptionRole.of variant option with
  | nestedGraph => exact absurd hrole hgraph
  | other => exact absurd hrole hother
  | input =>
    obtain rfl := OptionRole.eq_of_of_eq_input hrole
    exact ⟨input (some value), rfl, fun rest => by simp only [parse, hrole]⟩
  | filter kind =>
    exact ⟨filter kind option value, rfl, fun rest => by simp [parse, hrole, valued?]⟩
  | codec => exact ⟨codec option value, rfl, fun rest => by simp [parse, hrole, valued?]⟩
  | bitrate kind =>
    exact ⟨bitrate kind option value, rfl, fun rest => by simp [parse, hrole, valued?]⟩
  | maxRate => exact ⟨maxRate option value, rfl, fun rest => by simp [parse, hrole, valued?]⟩

theorem parse_singleton_of_input (h : OptionRole.of variant option = .input) :
    parse profile variant [option] = .ok [input none] := by
  simp only [parse, h]

theorem parse_singleton (hgraph : OptionRole.of variant option ≠ .nestedGraph)
    (hother : OptionRole.of variant option ≠ .other)
    (hinput : OptionRole.of variant option ≠ .input) :
    parse profile variant [option] = .error (.template (.noValue option profile)) := by
  cases hrole : OptionRole.of variant option <;> simp_all [parse]

theorem getLast?_ne_of_cons {e : Directive} (h : (d :: ds).getLast? ≠ some e) :
    ds.getLast? ≠ some e := by
  intro hlast
  rw [List.getLast?_cons, hlast] at h
  exact h rfl

/-- Arguments that are read to their end may be cut off in front. -/
theorem parse_append (h : parse profile variant front = .ok ds)
    (hend : ds.getLast? ≠ some (input none)) :
    parse profile variant (front ++ rest) = (parse profile variant rest).map (ds ++ ·) := by
  -- one directive is read in front of the others
  have hcons {front : List String} {d : Directive} {ds : List Directive}
      (hih : parse profile variant (front ++ rest) = (parse profile variant rest).map (ds ++ ·)) :
      (parse profile variant (front ++ rest)).map (d :: ·) =
        (parse profile variant rest).map (d :: ds ++ ·) := by
    rw [hih]
    cases parse profile variant rest <;> rfl
  fun_induction parse profile variant front generalizing ds with
  | case1 =>
    cases h
    rw [List.nil_append]
    cases parse profile variant rest <;> rfl
  | case2 => cases h
  | case3 option front hrole ih =>
    obtain ⟨ds, hds, rfl⟩ := map_eq_ok_iff.1 h
    rw [List.cons_append, parse_cons_of_other hrole]
    exact hcons (ih hds (getLast?_ne_of_cons hend))
  | case4 option hrole =>
    cases h
    exact absurd rfl hend
  | case5 option hrole file front ih =>
    obtain ⟨ds, hds, rfl⟩ := map_eq_ok_iff.1 h
    have hstep : parse profile variant (option :: file :: (front ++ rest)) =
        (parse profile variant (front ++ rest)).map (input (some file) :: ·) := by
      simp only [parse, hrole]
    exact hstep.trans (hcons (ih hds (getLast?_ne_of_cons hend)))
  | case6 => cases h
  | case7 option value front hgraph hother hinput ih =>
    obtain ⟨ds, hds, rfl⟩ := map_eq_ok_iff.1 h
    obtain ⟨d, hd⟩ := exists_valued? hgraph hother hinput option value
    rw [hd, Option.toList_some, List.singleton_append] at hend ⊢
    have hstep : parse profile variant (option :: value :: (front ++ rest)) =
        (parse profile variant (front ++ rest)).map (d :: ·) := by
      rw [parse]
      simp [hd]
    exact hstep.trans (hcons (ih hds (getLast?_ne_of_cons hend)))

end Montage.Directive
