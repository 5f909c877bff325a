import Montage.Proofs.Disk.Renaming
import Montage.Proofs.LastName

/-!
# Where another last name leads

A path leads to the entry of its last name, and what stands before that name says in which
directory. So with another last name it leads to another entry of the same directory
(`Leads.withName`), whatever steps, links and idle pieces the path goes through.

`Leads` is `EndsAt` without the limits on the lengths of paths and names, for paths that are
only read in a file and need not be ones that a system opens.
-/

namespace Montage

theorem Path.IsName.isName {name : String} (h : Path.IsName name) : Montage.IsName name := by
  have hidle : ¬ (name = "" ∨ name = ".") := by simpa [Path.isIdle] using h.isIdle
  rw [not_or] at hidle
  exact ⟨hidle.1, hidle.2, h.ne_up⟩

namespace Disk

namespace Walks

variable {d : Disk} {links : Nat} {here : Route} {steps before : List String} {name name' : String}
  {e : Ending}

theorem getLast?_eq (h : Walks d false links here steps e) (hsome : e.name.isSome = true)
    (hslash : e.slash = false) :
    ∃ name, steps.getLast? = some name ∧ IsName name ∧ e.name = some name := by
  induction h with
  | stop => cases hsome
  | idle _ _ ih =>
    obtain ⟨name, hlast, hname⟩ := ih hsome hslash
    exact ⟨name, by simp [List.getLast?_cons, hlast], hname⟩
  | up _ ih =>
    obtain ⟨name, hlast, hname⟩ := ih hsome hslash
    exact ⟨name, by simp [List.getLast?_cons, hlast], hname⟩
  | @last _ here step rest hname _ _ =>
    obtain rfl : rest = [] := by simpa using hslash
    exact ⟨step, rfl, hname, rfl⟩
  | enter _ _ _ _ _ ih =>
    obtain ⟨name, hlast, hname⟩ := ih hsome hslash
    exact ⟨name, by simp [List.getLast?_cons, hlast], hname⟩
  | @link _ here step rest e target _ hrest _ _ _ ih =>
    obtain ⟨name, hlast, hname⟩ := ih hsome hslash
    have hne : rest ≠ [] := by
      rintro rfl
      exact absurd (hrest rfl) Bool.false_ne_true
    rw [List.getLast?_append_of_ne_nil _ hne] at hlast
    exact ⟨name, by simp [List.getLast?_cons, hlast], hname⟩

theorem cons_cases {step : String} {rest kept idles : List String}
    (h : step :: rest = kept ++ (idles ++ [name])) :
    (kept = [] ∧ idles = [] ∧ step = name ∧ rest = []) ∨
      (kept = [] ∧ ∃ more, idles = step :: more ∧ rest = more ++ [name]) ∨
        ∃ more, kept = step :: more ∧ rest = more ++ (idles ++ [name]) := by
  cases kept with
  | cons first more =>
    obtain ⟨rfl, rfl⟩ := List.cons.inj h
    exact Or.inr (Or.inr ⟨more, rfl, rfl⟩)
  | nil =>
    cases idles with
    | nil =>
      obtain ⟨rfl, rfl⟩ := List.cons.inj h
      exact Or.inl ⟨rfl, rfl, rfl, rfl⟩
    | cons first more =>
      obtain ⟨rfl, rfl⟩ := List.cons.inj h
      exact Or.inr (Or.inl ⟨rfl, more, rfl, rfl⟩)

/-- With another last name, a walk ends at that name in the same directory, also without the
idle steps in front of it. -/
theorem replaceLast {kept idles : List String}
    (h : Walks d false links here (kept ++ (idles ++ [name])) e) (hname : IsName name)
    (hname' : IsName name') (hidles : ∀ step ∈ idles, step = "" ∨ step = ".") :
    Walks d false links here (kept ++ [name']) ⟨e.directory, some name', false⟩ := by
  have hmore (more : List String) : (more ++ [name']).all (· = "") = false := by
    simp [hname'.1]
  have hlong (more : List String) : ¬ (more ++ (idles ++ [name])).all (· = "") = true := by
    simp [hname.1]
  have hidle {step : String} {more : List String} (hidles' : ∀ s ∈ step :: more, s = "" ∨ s = ".") :
      ¬ IsName step := fun hstep => (hidles' step List.mem_cons_self).elim hstep.1 hstep.2.1
  have htail {step : String} {more : List String} (hidles' : ∀ s ∈ step :: more, s = "" ∨ s = ".") :
      ∀ s ∈ more, s = "" ∨ s = "." := fun s hs => hidles' s (List.mem_cons_of_mem _ hs)
  generalize hsteps : kept ++ (idles ++ [name]) = steps at h
  induction h generalizing kept idles with
  | stop => simp at hsteps
  | idle hstep h ih =>
    rcases cons_cases hsteps.symm with
      ⟨rfl, rfl, rfl, rfl⟩ | ⟨rfl, more, rfl, rfl⟩ | ⟨more, rfl, rfl⟩
    · exact (hstep.elim hname.1 hname.2.1).elim
    · exact @ih [] more (htail hidles) (by simp [hname.1]) rfl
    · exact idle hstep (ih hidles hlong rfl)
  | up h ih =>
    rcases cons_cases hsteps.symm with
      ⟨rfl, rfl, rfl, rfl⟩ | ⟨rfl, more, rfl, rfl⟩ | ⟨more, rfl, rfl⟩
    · exact absurd rfl hname.2.2
    · simpa using hidles ".." List.mem_cons_self
    · exact up (ih hidles hlong rfl)
  | last hstep hrest _ =>
    rcases cons_cases hsteps.symm with
      ⟨rfl, rfl, rfl, rfl⟩ | ⟨rfl, more, rfl, rfl⟩ | ⟨more, rfl, rfl⟩
    · exact last hname' rfl fun hfalse => absurd hfalse Bool.false_ne_true
    · exact absurd hstep (hidle hidles)
    · exact absurd hrest (hlong more)
  | enter hstep hrest hlength hnode h ih =>
    rcases cons_cases hsteps.symm with
      ⟨rfl, rfl, rfl, rfl⟩ | ⟨rfl, more, rfl, rfl⟩ | ⟨more, rfl, rfl⟩
    · cases hrest
    · exact absurd hstep (hidle hidles)
    · exact enter hstep (hmore more) hlength hnode (ih hidles hlong rfl)
  | @link _ _ _ _ _ target hstep hrest hlength hnode h ih =>
    rcases cons_cases hsteps.symm with
      ⟨rfl, rfl, rfl, rfl⟩ | ⟨rfl, more, rfl, rfl⟩ | ⟨more, rfl, rfl⟩
    · exact absurd (hrest rfl) Bool.false_ne_true
    · exact absurd hstep (hidle hidles)
    · have hwalk := @ih (target.pieces ++ more) idles hidles hlong (List.append_assoc _ _ _)
      rw [List.append_assoc] at hwalk
      exact link hstep (fun hall => absurd hall (by simp [hmore more])) hlength hnode hwalk

end Walks

/-- The path leads to the entry `R`, however long it is. -/
def Leads (d : Disk) (p : Path) (R : Route) : Prop :=
  ∃ e, Walks d false linkLimit (d.base p) p.pieces e ∧ e.route = R ∧ e.name.isSome = true ∧
    e.slash = false

variable {d d' : Disk} {p q : Path} {R S : Route} {name : String}

theorem EndsAt.leads (h : EndsAt d p R) : Leads d p R := by
  obtain ⟨e, hlocate, hroute, hname, hslash, _⟩ := h
  exact ⟨e, (locate_eq_ok_iff.1 hlocate).2, hroute, hname, hslash⟩

namespace Leads

theorem unique (h : Leads d p R) (h' : Leads d p S) : R = S := by
  obtain ⟨e, hwalk, rfl, _⟩ := h
  obtain ⟨e', hwalk', rfl, _⟩ := h'
  have hsame := hwalk.eq_ok.symm.trans hwalk'.eq_ok
  cases hsame
  rfl

theorem of_guides (hdisks : Guides d d') (h : Leads d p R) : Leads d' p R := by
  obtain ⟨e, hwalk, hend⟩ := h
  refine ⟨e, ?_, hend⟩
  rw [base_of_start hdisks.start]
  exact hwalk.of_guides hdisks

theorem exists_last (h : Leads d p R) : ∃ name, p.fileName? = some name ∧
    p.pieces.getLast? = some name ∧ IsName name ∧ R.getLast? = some name := by
  obtain ⟨e, hwalk, rfl, hsome, hslash⟩ := h
  obtain ⟨name, hlast, hname, hend⟩ := hwalk.getLast?_eq hsome hslash
  exact ⟨name, Path.fileName?_of_getLast? hlast hname, hlast, hname, by simp [Ending.route, hend]⟩

theorem getLast?_eq (h : Leads d p R) : p.fileName? = R.getLast? := by
  obtain ⟨name, hfile, _, _, hend⟩ := h.exists_last
  rw [hfile, hend]

/-- A reference leads to an entry with its own last name. -/
theorem exists_last_of_join (h : Leads d (p.join q) R) :
    ∃ name, q.pieces.getLast? = some name ∧ IsName name ∧ R.getLast? = some name := by
  obtain ⟨front, _, hjoin⟩ := p.exists_front q.isAbsolute
  obtain ⟨name, _, hlast, hname⟩ := h.exists_last
  rw [(hjoin q rfl).1, List.getLast?_append_of_ne_nil _ q.pieces_ne_nil] at hlast
  exact ⟨name, hlast, hname⟩

/-- With another last name, a reference leads to the entry of that name in the same
directory. -/
theorem withName (h : Leads d (p.join q) R) (hname : IsName name) (hslash : '/' ∉ name.toList) :
    Leads d (p.join (q.withName name)) (R.dropLast ++ [name]) := by
  obtain ⟨e, hwalk, rfl, hsome, hends⟩ := h
  obtain ⟨last, hlast, hlastName, hend⟩ := hwalk.getLast?_eq hsome hends
  obtain ⟨front, whole, hjoin⟩ := p.exists_front q.isAbsolute
  obtain ⟨hpieces, habsolute⟩ := hjoin q rfl
  rw [hpieces, List.getLast?_append_of_ne_nil _ q.pieces_ne_nil] at hlast
  have hsplit := (List.dropLast_append_getLast? last hlast).symm
  have hplain : Path.isIdle last = false := by
    simp [Path.isIdle, hlastName.1, hlastName.2.1]
  obtain ⟨kept, idles, hbefore, hidles, hhead, hnew⟩ :=
    Path.exists_pieces_withName hsplit hplain hslash
  have hsame : (q.withName name).isAbsolute = q.isAbsolute := by
    rw [Path.isAbsolute_iff_head? hnew, Path.isAbsolute_iff_head? hsplit, hhead]
  obtain ⟨hpieces', habsolute'⟩ := hjoin _ hsame
  have hbase : d.base (p.join (q.withName name)) = d.base (p.join q) := by
    rw [base, base, habsolute, habsolute']
  rw [hpieces, hsplit, hbefore, List.append_assoc, ← List.append_assoc front] at hwalk
  have hwalk' := hwalk.replaceLast hlastName hname
    fun step hstep => by simpa [Path.isIdle] using hidles step hstep
  refine ⟨⟨e.directory, some name, false⟩, ?_, ?_, rfl, rfl⟩
  · rw [hbase, hpieces', hnew, ← List.append_assoc]
    exact hwalk'
  · simp [Ending.route, hend]

end Leads

end Disk

end Montage
