import Montage.Proofs.Disk.Entry

/-!
# How many links a walk takes

A walk follows a limited number of links, so two paths that end at one link may differ: the
target is within the limit of one of them only. Nothing else can tell them apart. If a walk
ends when some number of links is allowed, then with any other number it ends at the same
place or runs out of links, and it does the same on every disk with the same nodes and more
(`Walks.endsAlike`). So a path leads to a file if another path with its entry does, unless its
links are too many (`isFile_of_endsAt_of_isFile`).
-/

namespace Montage.Disk

variable {d d' : Disk} {p q : Path} {R : Route} {links n : Nat} {here : Route}
  {step : String} {steps rest : List String} {e e' : Ending} {target : Path} {node : Node}

/-- The links behind the entry of a path are too many. -/
def IsTooDeep (d : Disk) (p : Path) : Prop :=
  (d.entry? p).isSome = true ∧ d.locate true p = .error .tooManyLinks

theorem not_isTooDeep (h : (d.locate true p).toOption.isSome = true) : ¬ IsTooDeep d p := by
  rintro ⟨_, hlimit⟩
  rw [hlimit] at h
  cases h

/-- A walk through at most `links` links ends at `e` or runs out of links, on both disks. -/
structure EndsAlike (d d' : Disk) (links : Nat) (here : Route) (steps : List String) (e : Ending) :
    Prop where
  cases : d.walk true links here steps = .ok e ∨
    d.walk true links here steps = .error .tooManyLinks
  same : d'.walk true links here steps = d.walk true links here steps

theorem EndsAlike.congr {here' : Route} {steps' : List String} (h : EndsAlike d d' n here' steps' e)
    (hfirst : d.walk true links here steps = d.walk true n here' steps')
    (hsecond : d'.walk true links here steps = d'.walk true n here' steps') :
    EndsAlike d d' links here steps e :=
  ⟨hfirst ▸ h.cases, hsecond.trans (h.same.trans hfirst.symm)⟩

theorem walk_link_zero (hname : IsName step) (hlength : step.utf8ByteSize ≤ nameLimit)
    (hnode : d.node? (here ++ [step]) = some (.link target)) :
    d.walk true 0 here (step :: rest) = .error .tooManyLinks := by
  rw [walk_eq, advance_link hname (fun _ => rfl) hlength hnode]

theorem EndsAlike.link (hdisks : Within d d') (hname : IsName step)
    (hlength : step.utf8ByteSize ≤ nameLimit)
    (hnode : d.node? (here ++ [step]) = some (.link target))
    (h : ∀ n, EndsAlike d d' n (linkBase target here) (target.pieces ++ rest) e) (links : Nat) :
    EndsAlike d d' links here (step :: rest) e := by
  have hnode' := hdisks.nodes _ _ hnode
  cases links with
  | zero =>
    have hlimit := @walk_link_zero _ _ _ rest _ hname hlength hnode
    exact ⟨Or.inr hlimit, (walk_link_zero hname hlength hnode').trans hlimit.symm⟩
  | succ n =>
    exact (h n).congr (walk_link hname (fun _ => rfl) hlength hnode)
      (walk_link hname (fun _ => rfl) hlength hnode')

theorem Walks.endsAlike (hdisks : Within d d') (h : Walks d true links here steps e)
    (hend : d.node? e.route = some node) (n : Nat) : EndsAlike d d' n here steps e := by
  induction h generalizing n with
  | stop => exact ⟨Or.inl (walk_eq n _ []), (walk_eq n _ []).trans (walk_eq n _ []).symm⟩
  | idle hidle _ ih => exact (ih hend n).congr (walk_idle hidle) (walk_idle hidle)
  | up _ ih => exact (ih hend n).congr walk_up walk_up
  | @last _ here step rest hname hrest hlink =>
    have hroute : d.node? (here ++ [step]) = some node := hend
    have hlink' : true = true → ∀ target, d'.node? (here ++ [step]) ≠ some (.link target) := by
      intro hfollow target htarget
      rw [hdisks.nodes _ _ hroute, ← hroute] at htarget
      exact hlink hfollow target htarget
    have hlast : d.walk true n here (step :: rest) = _ := walk_last hname hrest hlink
    exact ⟨Or.inl hlast, (walk_last hname hrest hlink').trans hlast.symm⟩
  | enter hname hrest hlength hnode _ ih =>
    exact (ih hend n).congr (walk_enter hname hrest hlength hnode)
      (walk_enter hname hrest hlength (hdisks.nodes _ _ hnode))
  | link hname hrest hlength hnode _ ih =>
    exact EndsAlike.link hdisks hname hlength hnode (ih hend) n

theorem Walks.endsAlike_of_target (hdisks : Within d d') (h : Walks d false links here steps e)
    (hname : e.name.isSome = true) (hslash : e.slash = false)
    (hlength : (e.name.getD "").utf8ByteSize ≤ nameLimit)
    (hnode : d.node? e.route = some (.link target))
    (htarget : ∀ n, EndsAlike d d' n (linkBase target e.directory) target.pieces e') :
    EndsAlike d d' links here steps e' := by
  induction h with
  | stop => cases hname
  | idle hidle _ ih =>
    exact (ih hname hslash hlength hnode htarget).congr (walk_idle hidle) (walk_idle hidle)
  | up _ ih => exact (ih hname hslash hlength hnode htarget).congr walk_up walk_up
  | @last _ here step rest hstep _ _ =>
    obtain rfl : rest = [] := by simpa using hslash
    refine EndsAlike.link hdisks hstep hlength hnode ?_ _
    simpa using htarget
  | enter hstep hrest hbytes hdirectory _ ih =>
    exact (ih hname hslash hlength hnode htarget).congr (walk_enter hstep hrest hbytes hdirectory)
      (walk_enter hstep hrest hbytes (hdisks.nodes _ _ hdirectory))
  | link hstep hrest hbytes hlink _ ih =>
    exact (ih hname hslash hlength hnode htarget).congr
      (walk_link hstep (fun _ => rfl) hbytes hlink)
      (walk_link hstep (fun _ => rfl) hbytes (hdisks.nodes _ _ hlink))

theorem locate_eq_walk {follow : Bool} (h : p.fault? = none) :
    d.locate follow p = d.walk follow linkLimit (d.base p) p.pieces := by
  unfold locate
  rw [h]
  rfl

/-- A path leads to a file if another path with its entry does, unless its links were too many
on a disk with the same nodes and more. -/
theorem isFile_of_endsAt_of_isFile (hdisks : Within d d') (hfile : d.isFile p = true)
    (hp : EndsAt d p R) (hq : EndsAt d q R) (hdeep : ¬ IsTooDeep d' q) : d.isFile q = true := by
  obtain ⟨S, bytes, hresolve⟩ := isFile_iff.1 hfile
  obtain ⟨e, hlocate, harrive⟩ := exists_of_resolve hresolve
  obtain ⟨rfl, hnode, -⟩ := of_arrive_eq_ok harrive
  obtain ⟨hfault, hwalk⟩ := locate_eq_ok_iff.1 hlocate
  obtain ⟨ep, hwalkp, hend⟩ := hwalk.unfollowed
  obtain ⟨_, hlocatep, hroute, hname, hslash, hlength⟩ := hp
  cases (locate_eq_ok_iff.2 ⟨hfault, hwalkp⟩).symm.trans hlocatep
  rcases hend with rfl | ⟨n, target, slashes, hlink, _, _, _, hslashes, htarget⟩
  · rw [hroute] at hnode
    exact isFile_of_endsAt hq hnode
  -- the entry is a link, and the walk along `q` comes to it from the same directory
  obtain rfl : slashes = [] := by simpa [hslash] using hslashes
  rw [List.append_nil] at htarget
  have hentry : (d'.entry? q).isSome = true := by
    rw [entry?_eq_some_iff.2 (hq.of_guides hdisks.guides)]
    rfl
  obtain ⟨eq, hlocateq, hrouteq, hnameq, hslashq, hlengthq⟩ := hq
  obtain ⟨hfaultq, hwalkq⟩ := locate_eq_ok_iff.1 hlocateq
  have hdirectory : eq.directory = ep.directory := by
    obtain ⟨name, hname⟩ := Option.isSome_iff_exists.1 hname
    obtain ⟨nameq, hnameq⟩ := Option.isSome_iff_exists.1 hnameq
    have hsame : eq.route.dropLast = ep.route.dropLast := by rw [hrouteq, hroute]
    simpa [Ending.route, hname, hnameq] using hsame
  rw [hroute, ← hrouteq] at hlink
  rw [← hdirectory] at htarget
  have halike := hwalkq.endsAlike_of_target hdisks hnameq hslashq hlengthq hlink
    (htarget.endsAlike hdisks hnode)
  rcases halike.cases with hok | hlimit
  · rw [← locate_eq_walk hfaultq] at hok
    exact isFile_iff.2 ⟨_, bytes, bind_eq_ok_iff.2 ⟨e, hok, harrive⟩⟩
  · have hlimit' := halike.same.trans hlimit
    rw [← base_of_start hdisks.start, ← locate_eq_walk hfaultq] at hlimit'
    exact absurd ⟨hentry, hlimit'⟩ hdeep

end Montage.Disk
