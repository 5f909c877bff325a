import Montage.Clip.EditGraph
import Montage.Graph.Clause

/-!
# Wiring a stream to outputs

One stream feeds the outputs of all active profiles. With several outputs a
clause splits it; an output with a filter is fed from a pad of its own behind
the split, and the filter's clause writes the pad of the output. A single output
needs no split, and without a filter it takes the stream as it is.
-/

namespace Montage

def StreamKind.outputPad (kind : StreamKind) (index : Nat) : Pad :=
  .named ("o" ++ kind.letter.toString ++ toString index)

/-- The pad between the split and the filter of an output. -/
def StreamKind.branchPad (kind : StreamKind) (index : Nat) : Pad :=
  .named ("o" ++ kind.letter.toString ++ "0" ++ toString index)

/-- How one stream is wired to the outputs. -/
structure Wiring where
  split : Option Clause := none
  filters : List Clause := []
  /-- The value of the `-map` option of each output. -/
  maps : List String := []
  deriving DecidableEq, Repr

namespace Wiring

def splitPad (kind : StreamKind) (index : Nat) (filter : Option String) : Pad :=
  if filter.isSome then kind.branchPad index else kind.outputPad index

def single (kind : StreamKind) (input : Pad) : Option String → Wiring
  | some filter =>
    { filters := [⟨[input], filter, [kind.outputPad 0]⟩], maps := [(kind.outputPad 0).text] }
  | none => { maps := [input.mapValue] }

def several (kind : StreamKind) (input : Pad) (filters : List (Option String)) : Wiring where
  split := some
    ⟨[input], kind.mark ++ "split=" ++ toString filters.length,
      filters.zipIdx.map fun (filter, i) => splitPad kind i filter⟩
  filters := filters.zipIdx.filterMap fun (filter, i) =>
    filter.map fun filter => ⟨[kind.branchPad i], filter, [kind.outputPad i]⟩
  maps := (List.range filters.length).map fun i => (kind.outputPad i).text

def ofFilters (kind : StreamKind) (input : Pad) : List (Option String) → Wiring
  | [filter] => single kind input filter
  | filters => several kind input filters

def clauses (w : Wiring) : List Clause := w.split.toList ++ w.filters

theorem length_maps_ofFilters (kind : StreamKind) (input : Pad) (filters : List (Option String)) :
    (ofFilters kind input filters).maps.length = filters.length := by
  match filters with
  | [] => rfl
  | [some _] => rfl
  | [none] => rfl
  | _ :: _ :: _ => simp [ofFilters, several]

end Wiring

end Montage
