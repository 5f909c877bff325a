import Montage.Graph.Pad

/-!
# Clauses and graphs

A clause reads from pads, filters, and writes to pads. A graph is a list of
clauses in order. `Clause` keeps the three parts of a clause that this library
writes itself; `FilterGraph` holds clauses as text, wherever they come from.
-/

namespace Montage

/-- One clause of a filter graph. -/
structure Clause where
  reads : List Pad
  filter : String
  writes : List Pad
  deriving DecidableEq, Repr

def Pad.row (pads : List Pad) : String := String.join (pads.map Pad.text)

def Clause.text (c : Clause) : String := Pad.row c.reads ++ c.filter ++ Pad.row c.writes

/-- Clauses in order; an empty clause is no clause. -/
structure FilterGraph where
  clauses : List String := []
  deriving DecidableEq, Repr

namespace FilterGraph

def add (g : FilterGraph) (clause : String) : FilterGraph :=
  if clause.isEmpty then g else ⟨g.clauses ++ [clause]⟩

def addOptional (g : FilterGraph) (clause : Option String) : FilterGraph :=
  match clause with
  | some clause => g.add clause
  | none => g

def addAll (g : FilterGraph) (clauses : List String) : FilterGraph := clauses.foldl add g

def text? (g : FilterGraph) : Option String :=
  if g.clauses.isEmpty then none else some (";".intercalate g.clauses)

theorem clauses_add (g : FilterGraph) (clause : String) :
    (g.add clause).clauses = g.clauses ++ [clause].filter (!·.isEmpty) := by
  unfold add
  split <;> simp_all

theorem clauses_addAll (g : FilterGraph) (clauses : List String) :
    (g.addAll clauses).clauses = g.clauses ++ clauses.filter (!·.isEmpty) := by
  induction clauses generalizing g with
  | nil => simp [addAll]
  | cons clause clauses ih =>
    have h : g.addAll (clause :: clauses) = (g.add clause).addAll clauses := rfl
    rw [h, ih, clauses_add, List.append_assoc, ← List.filter_append]
    rfl

end FilterGraph

end Montage
