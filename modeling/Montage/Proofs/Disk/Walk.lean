import Montage.Disk.Contents
import Montage.Proofs.Outcome

/-!
# Walks, step by step

`Walks` lists the ways in which a walk takes its next step, so that statements
about walks are proved by one induction with a case for each kind of step. It is
the same as `Disk.walk`, `walk_eq_ok_iff`.

Where a walk passes is decided by directories and links alone. `Guides d d'` says
that `d'` has all those of `d`, and then a walk that does not follow its last
link ends on `d'` where it ends on `d`, `Walks.of_guides`. With the last link
followed the node at the end matters too, so `Walks.of_within` needs a disk with
the same nodes and more.

A walk that follows its last link goes along the link's target, and a slash behind
the link is passed on to the target, `Walks.unfollowed`. No walk passes through a
file, nor through a link to one, `Walks.not_walks_append`.
-/

namespace Montage

/-- Walks pass through the node. -/
def Node.Guides : Node → Prop
  | directory | link _ => True
  | file _ | sink => False

def Node.IsLink : Node → Prop
  | link _ => True
  | directory | file _ | sink => False

instance : DecidablePred Node.IsLink
  | .link _ => .isTrue trivial
  | .directory | .file _ | .sink => .isFalse id

theorem Node.IsLink.guides {node : Node} (h : node.IsLink) : node.Guides := by
  cases node with
  | link target => trivial
  | directory => trivial
  | file bytes => exact h
  | sink => exact h

/-- The step is a name, not a direction. -/
def IsName (step : String) : Prop := step ≠ "" ∧ step ≠ "." ∧ step ≠ ".."

def linkBase (target : Path) (here : Route) : Route := if target.isAbsolute then [] else here

namespace Disk

variable {d : Disk} {follow : Bool}

/-- A walk through at most `links` links that ends. -/
inductive Walks (d : Disk) (follow : Bool) : Nat → Route → List String → Ending → Prop where
  | stop {links : Nat} {here : Route} : Walks d follow links here [] ⟨here, none, false⟩
  | idle {links : Nat} {here : Route} {step : String} {rest : List String} {e : Ending}
      (hidle : step = "" ∨ step = ".") (h : Walks d follow links here rest e) :
      Walks d follow links here (step :: rest) e
  | up {links : Nat} {here : Route} {rest : List String} {e : Ending}
      (h : Walks d follow links here.dropLast rest e) : Walks d follow links here (".." :: rest) e
  | last {links : Nat} {here : Route} {step : String} {rest : List String} (hname : IsName step)
      (hrest : rest.all (· = "") = true)
      (hlink : follow = true → ∀ target, d.node? (here ++ [step]) ≠ some (.link target)) :
      Walks d follow links here (step :: rest) ⟨here, some step, !rest.isEmpty⟩
  | enter {links : Nat} {here : Route} {step : String} {rest : List String} {e : Ending}
      (hname : IsName step) (hrest : rest.all (· = "") = false)
      (hlength : step.utf8ByteSize ≤ nameLimit)
      (hnode : d.node? (here ++ [step]) = some .directory)
      (h : Walks d follow links (here ++ [step]) rest e) : Walks d follow links here (step :: rest) e
  | link {links : Nat} {here : Route} {step : String} {rest : List String} {e : Ending}
      {target : Path} (hname : IsName step) (hrest : rest.all (· = "") = true → follow = true)
      (hlength : step.utf8ByteSize ≤ nameLimit)
      (hnode : d.node? (here ++ [step]) = some (.link target))
      (h : Walks d follow links (linkBase target here) (target.pieces ++ rest) e) :
      Walks d follow (links + 1) here (step :: rest) e

section Equations

variable {links : Nat} {here : Route} {step : String} {rest : List String}

theorem walk_eq (links : Nat) (here : Route) (steps : List String) :
    d.walk follow links here steps =
      match d.advance follow here steps with
      | .arrived ending => .ok ending
      | .failed fault => .error fault
      | .atLink here target rest =>
        match links with
        | 0 => .error .tooManyLinks
        | links + 1 => d.walk follow links (linkBase target here) (target.pieces ++ rest) := by
  rw [walk.eq_def]
  rfl

theorem advance_idle (h : step = "" ∨ step = ".") :
    d.advance follow here (step :: rest) = d.advance follow here rest := by
  rw [advance.eq_def]
  exact if_pos h

theorem advance_up :
    d.advance follow here (".." :: rest) = d.advance follow here.dropLast rest := by
  rw [advance.eq_def]
  exact (if_neg (by decide)).trans (if_pos rfl)

theorem advance_of_isName (h : IsName step) :
    d.advance follow here (step :: rest) =
      if rest.all (· = "") then
        match d.node? (here ++ [step]), follow with
        | some (.link target), true =>
          if nameLimit < step.utf8ByteSize then .failed .nameTooLong else .atLink here target rest
        | _, _ => .arrived ⟨here, some step, !rest.isEmpty⟩
      else if nameLimit < step.utf8ByteSize then .failed .nameTooLong
      else
        match d.node? (here ++ [step]) with
        | some .directory => d.advance follow (here ++ [step]) rest
        | some (.link target) => .atLink here target rest
        | some _ => .failed .notADirectory
        | none => .failed .notFound := by
  have hidle : ¬ (step = "" ∨ step = ".") := by simp [h.1, h.2.1]
  rw [advance.eq_def]
  exact (if_neg hidle).trans (if_neg h.2.2)

theorem walk_idle (h : step = "" ∨ step = ".") :
    d.walk follow links here (step :: rest) = d.walk follow links here rest := by
  rw [walk_eq, walk_eq links here rest, advance_idle h]

theorem walk_up :
    d.walk follow links here (".." :: rest) = d.walk follow links here.dropLast rest := by
  rw [walk_eq, walk_eq links here.dropLast rest, advance_up]

theorem walk_last (h : IsName step) (hrest : rest.all (· = "") = true)
    (hlink : follow = true → ∀ target, d.node? (here ++ [step]) ≠ some (.link target)) :
    d.walk follow links here (step :: rest) = .ok ⟨here, some step, !rest.isEmpty⟩ := by
  have hadvance : d.advance follow here (step :: rest) =
      .arrived ⟨here, some step, !rest.isEmpty⟩ := by
    rw [advance_of_isName h, if_pos hrest]
    split
    · rename_i target hnode
      exact absurd hnode (hlink rfl target)
    · rfl
  rw [walk_eq, hadvance]

theorem walk_enter (h : IsName step) (hrest : rest.all (· = "") = false)
    (hlength : step.utf8ByteSize ≤ nameLimit)
    (hnode : d.node? (here ++ [step]) = some .directory) :
    d.walk follow links here (step :: rest) = d.walk follow links (here ++ [step]) rest := by
  rw [walk_eq, walk_eq links (here ++ [step]) rest, advance_of_isName h,
    if_neg (by simp [hrest]), if_neg (by omega), hnode]

theorem advance_link {target : Path} (h : IsName step)
    (hrest : rest.all (· = "") = true → follow = true) (hlength : step.utf8ByteSize ≤ nameLimit)
    (hnode : d.node? (here ++ [step]) = some (.link target)) :
    d.advance follow here (step :: rest) = .atLink here target rest := by
  rw [advance_of_isName h]
  by_cases hall : rest.all (· = "") = true
  · rw [if_pos hall, hnode, hrest hall]
    exact if_neg (by omega)
  · rw [if_neg hall, if_neg (by omega), hnode]

theorem walk_link {target : Path} (h : IsName step) (hrest : rest.all (· = "") = true → follow = true)
    (hlength : step.utf8ByteSize ≤ nameLimit)
    (hnode : d.node? (here ++ [step]) = some (.link target)) :
    d.walk follow (links + 1) here (step :: rest) =
      d.walk follow links (linkBase target here) (target.pieces ++ rest) := by
  rw [walk_eq, advance_link h hrest hlength hnode]

end Equations

/-- A walk in the sense of `Walks` is what `walk` computes. -/
theorem Walks.eq_ok {links : Nat} {here : Route} {steps : List String} {e : Ending}
    (h : Walks d follow links here steps e) : d.walk follow links here steps = .ok e := by
  induction h with
  | stop =>
      rw [walk_eq]
      rfl
  | idle hidle _ ih => rw [walk_idle hidle, ih]
  | up _ ih => rw [walk_up, ih]
  | last hname hrest hlink => exact walk_last hname hrest hlink
  | enter hname hrest hlength hnode _ ih => rw [walk_enter hname hrest hlength hnode, ih]
  | link hname hrest hlength hnode _ ih => rw [walk_link hname hrest hlength hnode, ih]

theorem not_walk_of_failed {links : Nat} {here : Route} {steps : List String} {e : Ending}
    {fault : SystemFault} (h : d.walk follow links here steps = .ok e) :
    d.advance follow here steps ≠ .failed fault := by
  intro hfailed
  rw [walk_eq, hfailed] at h
  cases h

theorem exists_of_walk_atLink {links : Nat} {here base : Route} {steps rest : List String}
    {e : Ending} {target : Path} (h : d.walk follow links here steps = .ok e)
    (hlink : d.advance follow here steps = .atLink base target rest) :
    ∃ n, links = n + 1 ∧
      d.walk follow n (linkBase target base) (target.pieces ++ rest) = .ok e := by
  rw [walk_eq, hlink] at h
  cases links with
  | zero => cases h
  | succ n => exact ⟨n, rfl, h⟩

theorem walks_cons_of_walk {links : Nat} {here : Route} {step : String} {rest : List String}
    {e : Ending} (hname : IsName step) (h : d.walk follow links here (step :: rest) = .ok e)
    (ihlinks : ∀ n < links, ∀ here steps, d.walk follow n here steps = .ok e →
      Walks d follow n here steps e)
    (ih : ∀ here, d.walk follow links here rest = .ok e → Walks d follow links here rest e) :
    Walks d follow links here (step :: rest) e := by
  have hadvance : d.advance follow here (step :: rest) = _ := advance_of_isName hname
  by_cases hall : rest.all (· = "") = true
  · rw [if_pos hall] at hadvance
    by_cases hfollow : follow = true ∧ ∃ target, d.node? (here ++ [step]) = some (.link target)
    · obtain ⟨rfl, target, hnode⟩ := hfollow
      rw [hnode] at hadvance
      by_cases hlength : nameLimit < step.utf8ByteSize
      · exact absurd (hadvance.trans (if_pos hlength)) (not_walk_of_failed h)
      · obtain ⟨n, rfl, hwalk⟩ := exists_of_walk_atLink h (hadvance.trans (if_neg hlength))
        exact Walks.link hname (fun _ => rfl) (by omega) hnode (ihlinks n (by omega) _ _ hwalk)
    · have hlast : follow = true → ∀ target, d.node? (here ++ [step]) ≠ some (.link target) :=
        fun htrue target hnode => hfollow ⟨htrue, target, hnode⟩
      rw [walk_last hname hall hlast] at h
      cases h
      exact Walks.last hname hall hlast
  · rw [if_neg hall] at hadvance
    by_cases hlength : nameLimit < step.utf8ByteSize
    · exact absurd (hadvance.trans (if_pos hlength)) (not_walk_of_failed h)
    have hsome : rest.all (· = "") = false := by simpa using hall
    rw [if_neg hlength] at hadvance
    cases hnode : d.node? (here ++ [step]) with
    | none =>
        rw [hnode] at hadvance
        exact absurd hadvance (not_walk_of_failed h)
    | some node =>
        rw [hnode] at hadvance
        cases node with
        | directory =>
            rw [walk_enter hname hsome (by omega) hnode] at h
            exact Walks.enter hname hsome (by omega) hnode (ih _ h)
        | link target =>
            obtain ⟨n, rfl, hwalk⟩ := exists_of_walk_atLink h hadvance
            exact Walks.link hname (fun htrue => absurd htrue hall) (by omega) hnode
              (ihlinks n (by omega) _ _ hwalk)
        | file bytes => exact absurd hadvance (not_walk_of_failed h)
        | sink => exact absurd hadvance (not_walk_of_failed h)

theorem walks_of_walk_eq {links : Nat} {here : Route} {steps : List String} {e : Ending}
    (h : d.walk follow links here steps = .ok e) : Walks d follow links here steps e := by
  induction links using Nat.strongRecOn generalizing here steps with
  | ind links ihlinks =>
  induction steps generalizing here with
  | nil =>
      rw [walk_eq] at h
      cases h
      exact Walks.stop
  | cons step rest ih =>
      by_cases hidle : step = "" ∨ step = "."
      · rw [walk_idle hidle] at h
        exact Walks.idle hidle (ih h)
      by_cases hup : step = ".."
      · subst hup
        rw [walk_up] at h
        exact Walks.up (ih h)
      have hname : IsName step := by simpa [IsName, hup, not_or] using hidle
      exact walks_cons_of_walk hname h (fun n hn here steps => ihlinks n hn) fun here => ih

theorem walk_eq_ok_iff {links : Nat} {here : Route} {steps : List String} {e : Ending} :
    d.walk follow links here steps = .ok e ↔ Walks d follow links here steps e :=
  ⟨walks_of_walk_eq, Walks.eq_ok⟩

/-- The second disk has the directories and links of the first one. -/
structure Guides (d d' : Disk) : Prop where
  start : d'.workingDirectory = d.workingDirectory
  nodes : ∀ route node, node.Guides → d.node? route = some node → d'.node? route = some node

structure Within (d d' : Disk) : Prop where
  start : d'.workingDirectory = d.workingDirectory
  nodes : ∀ route node, d.node? route = some node → d'.node? route = some node

theorem Within.refl (d : Disk) : Within d d := ⟨rfl, fun _ _ h => h⟩

theorem Within.trans {a b c : Disk} (h : Within a b) (h' : Within b c) : Within a c :=
  ⟨h'.start.trans h.start, fun route node hnode => h'.nodes route node (h.nodes route node hnode)⟩

theorem Within.guides {a b : Disk} (h : Within a b) : Guides a b :=
  ⟨h.start, fun route node _ hnode => h.nodes route node hnode⟩

namespace Walks

variable {d' : Disk} {links : Nat} {here : Route} {steps : List String} {e : Ending}

theorem of_guides (hdisks : Guides d d') (h : Walks d false links here steps e) :
    Walks d' false links here steps e := by
  induction h with
  | stop => exact stop
  | idle hidle _ ih => exact idle hidle ih
  | up _ ih => exact up ih
  | last hname hrest _ => exact last hname hrest fun hfalse => absurd hfalse Bool.false_ne_true
  | enter hname hrest hlength hnode _ ih =>
      exact enter hname hrest hlength (hdisks.nodes _ _ trivial hnode) ih
  | link hname hrest hlength hnode _ ih =>
      exact link hname hrest hlength (hdisks.nodes _ _ trivial hnode) ih

theorem of_within (hdisks : Within d d') (h : Walks d follow links here steps e) {node : Node}
    (hend : d.node? e.route = some node) : Walks d' follow links here steps e := by
  induction h with
  | stop => exact stop
  | idle hidle _ ih => exact idle hidle (ih hend)
  | up _ ih => exact up (ih hend)
  | @last _ here step rest hname hrest hlink =>
      refine last hname hrest fun hfollow target htarget => hlink hfollow target ?_
      have hroute : d.node? (here ++ [step]) = some node := hend
      have hsame := (hdisks.nodes _ _ hroute).symm.trans htarget
      rw [hroute, hsame]
  | enter hname hrest hlength hnode _ ih =>
      exact enter hname hrest hlength (hdisks.nodes _ _ hnode) (ih hend)
  | link hname hrest hlength hnode _ ih =>
      exact link hname hrest hlength (hdisks.nodes _ _ hnode) (ih hend)

/-- A walk that does not end at a link does not depend on following the last one. -/
theorem followed (h : Walks d false links here steps e)
    (hend : ∀ target, d.node? e.route ≠ some (.link target)) :
    Walks d true links here steps e := by
  induction h with
  | stop => exact stop
  | idle hidle _ ih => exact idle hidle (ih hend)
  | up _ ih => exact up (ih hend)
  | last hname hrest _ => exact last hname hrest fun _ => hend
  | enter hname hrest hlength hnode _ ih => exact enter hname hrest hlength hnode (ih hend)
  | link hname _ hlength hnode _ ih => exact link hname (fun _ => rfl) hlength hnode (ih hend)

theorem getLast?_cases {step : String} {rest : List String}
    (h : (step :: rest).getLast? = some "") :
    (rest = [] ∧ step = "") ∨ rest.getLast? = some "" := by
  cases rest with
  | nil => exact Or.inl ⟨rfl, by simpa using h⟩
  | cons next rest => exact Or.inr (by simpa using h)

theorem name_of_nil (h : Walks d follow links here [] e) : e.name = none := by
  cases h
  rfl

theorem slash_of_getLast? (h : Walks d follow links here steps e)
    (hslash : steps.getLast? = some "") : e.slash = true ∨ e.name = none := by
  induction h with
  | stop => cases hslash
  | idle _ hrest ih =>
      rcases getLast?_cases hslash with ⟨rfl, _⟩ | hlast
      · exact Or.inr hrest.name_of_nil
      · exact ih hlast
  | up hrest ih =>
      rcases getLast?_cases hslash with ⟨rfl, _⟩ | hlast
      · exact Or.inr hrest.name_of_nil
      · exact ih hlast
  | @last _ _ step rest hname _ _ =>
      rcases getLast?_cases hslash with ⟨_, hempty⟩ | hlast
      · exact absurd hempty hname.1
      · cases rest with
        | nil => cases hlast
        | cons next rest => exact Or.inl rfl
  | enter hname _ _ _ _ ih =>
      rcases getLast?_cases hslash with ⟨_, hempty⟩ | hlast
      · exact absurd hempty hname.1
      · exact ih hlast
  | link hname _ _ _ _ ih =>
      rcases getLast?_cases hslash with ⟨_, hempty⟩ | hlast
      · exact absurd hempty hname.1
      · apply ih
        rw [List.getLast?_append, hlast]
        rfl

theorem getLast?_of_all {rest : List String} (hall : rest.all (· = "") = true)
    (hne : rest.isEmpty = false) : rest.getLast? = some "" := by
  cases hlast : rest.getLast? with
  | none =>
      rw [List.getLast?_eq_none_iff.1 hlast] at hne
      cases hne
  | some step =>
      have hstep := List.all_eq_true.1 hall step (List.mem_of_getLast? hlast)
      rw [of_decide_eq_true hstep]

/-- Without following the last link, the walk ends where it ended before, or at
that link, from where it went on along the target. -/
theorem unfollowed (h : Walks d true links here steps e) :
    ∃ e', Walks d false links here steps e' ∧
      (e' = e ∨ ∃ n target slashes, d.node? e'.route = some (.link target) ∧
        e'.name.isSome = true ∧ (e'.name.getD "").utf8ByteSize ≤ nameLimit ∧
          slashes.all (· = "") = true ∧ e'.slash = !slashes.isEmpty ∧
            Walks d true n (linkBase target e'.directory) (target.pieces ++ slashes) e) := by
  induction h with
  | stop => exact ⟨_, stop, Or.inl rfl⟩
  | idle hidle _ ih =>
      obtain ⟨e', hwalk, hend⟩ := ih
      exact ⟨e', idle hidle hwalk, hend⟩
  | up _ ih =>
      obtain ⟨e', hwalk, hend⟩ := ih
      exact ⟨e', up hwalk, hend⟩
  | last hname hrest _ =>
      exact ⟨_, last hname hrest fun hfalse => absurd hfalse Bool.false_ne_true, Or.inl rfl⟩
  | enter hname hrest hlength hnode _ ih =>
      obtain ⟨e', hwalk, hend⟩ := ih
      exact ⟨e', enter hname hrest hlength hnode hwalk, hend⟩
  | @link n here step rest e target hname hrest hlength hnode hwalk ih =>
      by_cases hall : rest.all (· = "") = true
      · exact ⟨⟨here, some step, !rest.isEmpty⟩,
          last hname hall fun hfalse => absurd hfalse Bool.false_ne_true,
          Or.inr ⟨n, target, rest, hnode, rfl, hlength, hall, rfl, hwalk⟩⟩
      · obtain ⟨e', hrestWalk, hend⟩ := ih
        exact ⟨e', link hname (fun htrue => absurd htrue hall) hlength hnode hrestWalk, hend⟩

theorem slashes_eq_nil {slashes : List String} (h : Walks d follow links here (steps ++ slashes) e)
    (hall : slashes.all (· = "") = true) (hname : e.name.isSome = true) (hslash : e.slash = false) :
    slashes = [] := by
  cases hempty : slashes.isEmpty with
  | true => exact List.isEmpty_iff.1 hempty
  | false =>
      have hlast : (steps ++ slashes).getLast? = some "" := by
        rw [List.getLast?_append, getLast?_of_all hall hempty]
        rfl
      rcases h.slash_of_getLast? hlast with htrue | hnone
      · rw [hslash] at htrue
        cases htrue
      · rw [hnone] at hname
        cases hname

theorem of_idle {step : String} {rest : List String} (hidle : step = "" ∨ step = ".")
    (h : Walks d follow links here (step :: rest) e) : Walks d follow links here rest e := by
  cases h with
  | idle _ h => exact h
  | up _ => simp at hidle
  | last hname => exact (hidle.elim hname.1 hname.2.1).elim
  | enter hname => exact (hidle.elim hname.1 hname.2.1).elim
  | link hname => exact (hidle.elim hname.1 hname.2.1).elim

theorem of_up {rest : List String} (h : Walks d follow links here (".." :: rest) e) :
    Walks d follow links here.dropLast rest e := by
  cases h with
  | idle hidle => simp at hidle
  | up h => exact h
  | last hname => exact absurd rfl hname.2.2
  | enter hname => exact absurd rfl hname.2.2
  | link hname => exact absurd rfl hname.2.2

theorem of_isName {step : String} {rest : List String} (hname : IsName step)
    (hrest : rest.all (· = "") = false) (h : Walks d follow links here (step :: rest) e) :
    (d.node? (here ++ [step]) = some .directory ∧ Walks d follow links (here ++ [step]) rest e) ∨
      ∃ n target, d.node? (here ++ [step]) = some (.link target) ∧
        Walks d follow n (linkBase target here) (target.pieces ++ rest) e := by
  cases h with
  | idle hidle => exact (hidle.elim hname.1 hname.2.1).elim
  | up _ => exact absurd rfl hname.2.2
  | last _ hall =>
      rw [hrest] at hall
      cases hall
  | enter _ _ _ hnode h => exact Or.inl ⟨hnode, h⟩
  | link _ _ _ hnode h => exact Or.inr ⟨_, _, hnode, h⟩

/-- Where a walk ends at something through which none passes, none goes on. -/
theorem not_walks_append (h : Walks d true links here steps e) (hname : e.name.isSome = true)
    {node : Node} (hnode : d.node? e.route = some node) (hplain : ¬ node.Guides)
    {rest : List String} (hrest : rest.all (· = "") = false) {n : Nat} {e' : Ending} :
    ¬ Walks d false n here (steps ++ rest) e' := by
  have hall : ∀ before : List String, (before ++ rest).all (· = "") = false := by
    intro before
    rw [List.all_append, hrest, Bool.and_false]
  induction h generalizing n with
  | stop => cases hname
  | idle hidle _ ih => exact fun hwalk => ih hname hnode (hwalk.of_idle hidle)
  | up _ ih => exact fun hwalk => ih hname hnode hwalk.of_up
  | @last _ here step slashes hstep _ _ =>
      intro hwalk
      have hthere : d.node? (here ++ [step]) = some node := hnode
      rcases hwalk.of_isName hstep (hall _) with ⟨hdirectory, _⟩ | ⟨_, target, hlink, _⟩
      · cases hthere.symm.trans hdirectory
        exact hplain trivial
      · cases hthere.symm.trans hlink
        exact hplain trivial
  | enter hstep _ _ hdirectory _ ih =>
      intro hwalk
      rcases hwalk.of_isName hstep (hall _) with ⟨_, hwalk⟩ | ⟨_, _, hlink, _⟩
      · exact ih hname hnode hwalk
      · cases hdirectory.symm.trans hlink
  | link hstep _ _ hlink _ ih =>
      intro hwalk
      rcases hwalk.of_isName hstep (hall _) with ⟨hdirectory, _⟩ | ⟨_, _, hlink', hwalk⟩
      · cases hlink.symm.trans hdirectory
      · cases hlink.symm.trans hlink'
        apply ih hname hnode
        rw [List.append_assoc]
        exact hwalk

end Walks

end Disk

end Montage
