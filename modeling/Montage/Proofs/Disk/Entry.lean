import Montage.Disk.Change
import Montage.Proofs.Disk.Walk

/-!
# Entries

The entry of a path is the name in a directory that the path spells, whatever is
there: `EndsAt d p R` says that it is at the route `R`. Removing and renaming work
on entries. A path that leads to a file has an entry, and the entry is that file
or a link to it.
-/

namespace Montage.Disk

variable {d d' : Disk} {p : Path} {R : Route} {follow : Bool} {e : Ending}

def base (d : Disk) (p : Path) : Route := if p.isAbsolute then [] else d.workingDirectory

/-- The path ends at the entry `R`. -/
def EndsAt (d : Disk) (p : Path) (R : Route) : Prop :=
  ∃ e, d.locate false p = .ok e ∧ e.route = R ∧ e.name.isSome = true ∧ e.slash = false ∧
    (e.name.getD "").utf8ByteSize ≤ nameLimit

def entry? (d : Disk) (p : Path) : Option Route :=
  match d.locate false p with
  | .ok e =>
    if e.name.isSome ∧ e.slash = false ∧ (e.name.getD "").utf8ByteSize ≤ nameLimit then some e.route
    else none
  | .error _ => none

theorem entry?_eq_some_iff : d.entry? p = some R ↔ EndsAt d p R := by
  unfold entry? EndsAt
  cases hlocate : d.locate false p with
  | error fault => simp
  | ok e =>
    simp only [Option.ite_none_right_eq_some, Option.some.injEq, Except.ok.injEq]
    constructor
    · rintro ⟨hend, hroute⟩
      exact ⟨e, rfl, hroute, hend⟩
    · rintro ⟨_, rfl, hroute, hend⟩
      exact ⟨hend, hroute⟩

theorem locate_eq_ok_iff :
    d.locate follow p = .ok e ↔
      p.fault? = none ∧ Walks d follow linkLimit (d.base p) p.pieces e := by
  unfold locate
  cases hfault : p.fault? with
  | some fault => simp
  | none => exact walk_eq_ok_iff.trans (and_iff_right rfl).symm

theorem base_of_start (h : d'.workingDirectory = d.workingDirectory) (p : Path) :
    d'.base p = d.base p := by
  rw [base, base, h]

theorem locate_of_guides (hdisks : Guides d d') (h : d.locate false p = .ok e) :
    d'.locate false p = .ok e := by
  obtain ⟨hfault, hwalk⟩ := locate_eq_ok_iff.1 h
  rw [locate_eq_ok_iff, base_of_start hdisks.start]
  exact ⟨hfault, hwalk.of_guides hdisks⟩

theorem EndsAt.of_guides (hdisks : Guides d d') (h : EndsAt d p R) : EndsAt d' p R := by
  obtain ⟨e, hlocate, hend⟩ := h
  exact ⟨e, locate_of_guides hdisks hlocate, hend⟩

theorem EndsAt.unique {S : Route} (h : EndsAt d p R) (h' : EndsAt d p S) : R = S := by
  obtain ⟨e, hlocate, rfl, _⟩ := h
  obtain ⟨e', hlocate', rfl, _⟩ := h'
  rw [hlocate] at hlocate'
  cases hlocate'
  rfl

theorem EndsAt.ne_nil (h : EndsAt d p R) : R ≠ [] := by
  obtain ⟨e, _, rfl, hname, _⟩ := h
  obtain ⟨name, hname⟩ := Option.isSome_iff_exists.1 hname
  simp [Ending.route, hname]

theorem lookup_eq_ok (h : (e.name.getD "").utf8ByteSize ≤ nameLimit) :
    d.lookup e = .ok (d.node? e.route) := by
  rw [lookup, if_neg (by omega)]

theorem of_lookup_eq_ok {there : Option Node} (h : d.lookup e = .ok there) :
    (e.name.getD "").utf8ByteSize ≤ nameLimit ∧ d.node? e.route = there := by
  unfold lookup at h
  split at h
  · cases h
  · cases h
    exact ⟨by omega, rfl⟩

theorem of_arrive_eq_ok {node : Node} (h : d.arrive e = .ok (R, node)) :
    e.route = R ∧ d.node? R = some node ∧ (e.name.getD "").utf8ByteSize ≤ nameLimit ∧
      (node = .directory ∨ e.slash = false ∧ e.name.isSome = true) := by
  obtain ⟨there, hlookup, h⟩ := bind_eq_ok_iff.1 h
  obtain ⟨hlength, hthere⟩ := of_lookup_eq_ok hlookup
  split at h
  · cases h
  · cases h
    exact ⟨rfl, hthere, hlength, Or.inl rfl⟩
  · split at h
    · cases h
    · rename_i hasked
      cases h
      refine ⟨rfl, hthere, hlength, Or.inr ?_⟩
      simpa [Option.isSome_iff_ne_none] using hasked

theorem arrive_eq_ok {node : Node} (hroute : e.route = R) (hnode : d.node? R = some node)
    (hlength : (e.name.getD "").utf8ByteSize ≤ nameLimit)
    (hasked : node = .directory ∨ e.slash = false ∧ e.name.isSome = true) :
    d.arrive e = .ok (R, node) := by
  subst hroute
  have hlookup : d.lookup e = .ok (some node) := by rw [lookup_eq_ok hlength, hnode]
  rcases hasked with rfl | ⟨hslash, hname⟩
  · rw [arrive, hlookup]
    rfl
  · have hkept : ¬ (e.slash || e.name.isNone) = true := by
      simp [hslash, Option.isSome_iff_ne_none.1 hname]
    rw [arrive, hlookup]
    cases node with
    | directory => rfl
    | file bytes => exact if_neg hkept
    | link target => exact if_neg hkept
    | sink => exact if_neg hkept

theorem exists_of_resolve {node : Node} (h : d.resolve p = .ok (R, node)) :
    ∃ e, d.locate true p = .ok e ∧ d.arrive e = .ok (R, node) :=
  bind_eq_ok_iff.1 h

theorem resolve_of_within (hdisks : Within d d') {node : Node}
    (h : d.resolve p = .ok (R, node)) : d'.resolve p = .ok (R, node) := by
  obtain ⟨e, hlocate, harrive⟩ := exists_of_resolve h
  obtain ⟨hroute, hnode, hlength, hasked⟩ := of_arrive_eq_ok harrive
  obtain ⟨hfault, hwalk⟩ := locate_eq_ok_iff.1 hlocate
  have hwalk' := hwalk.of_within hdisks (hroute ▸ hnode)
  rw [← base_of_start hdisks.start] at hwalk'
  have hlocate' := locate_eq_ok_iff.2 ⟨hfault, hwalk'⟩
  exact bind_eq_ok_iff.2
    ⟨e, hlocate', arrive_eq_ok hroute (hdisks.nodes _ _ hnode) hlength hasked⟩

theorem isFile_iff : d.isFile p = true ↔ ∃ R bytes, d.resolve p = .ok (R, .file bytes) := by
  unfold isFile find?
  cases h : d.resolve p with
  | error fault => simp [Except.toOption]
  | ok found =>
      obtain ⟨R, node⟩ := found
      cases node <;> simp [Except.toOption]

theorem isFile_of_within (hdisks : Within d d') (h : d.isFile p = true) : d'.isFile p = true := by
  obtain ⟨R, bytes, hresolve⟩ := isFile_iff.1 h
  exact isFile_iff.2 ⟨R, bytes, resolve_of_within hdisks hresolve⟩

theorem exists_of_create (h : d.create p = .ok d') :
    ∃ R, EndsAt d p R ∧ d.node? R = none ∧ d' = d.put R (.file .empty) := by
  unfold create at h
  split at h
  · cases h
  obtain ⟨e, hlocate, h⟩ := bind_eq_ok_iff.1 h
  by_cases hname : (e.name.isNone || e.slash) = true
  · rw [if_pos hname] at h
    cases h
  rw [if_neg hname] at h
  obtain ⟨there, hlookup, h⟩ := bind_eq_ok_iff.1 h
  obtain ⟨hlength, hthere⟩ := of_lookup_eq_ok hlookup
  obtain ⟨hsome, hslash⟩ : e.name.isSome = true ∧ e.slash = false := by
    simpa [Option.isNone_iff_eq_none, Option.isSome_iff_ne_none] using hname
  split at h
  · cases h
  · cases h
    exact ⟨e.route, ⟨e, hlocate, rfl, hsome, hslash, hlength⟩, hthere, rfl⟩

/-- No walk passes through what is at the route. -/
structure IsLast (d : Disk) (R : Route) : Prop where
  directory : d.node? R ≠ some .directory
  link : ∀ target, d.node? R = some (.link target) → ∀ rest, rest.all (· = "") = false →
    ∀ n e, ¬ Walks d false n (linkBase target R.dropLast) (target.pieces ++ rest) e

theorem isLast_of_plain {node : Node} (hnode : d.node? R = some node) (hplain : ¬ node.Guides) :
    IsLast d R := by
  constructor
  · intro hdirectory
    rw [hnode] at hdirectory
    cases hdirectory
    exact hplain trivial
  · intro target hlink
    rw [hnode] at hlink
    cases hlink
    exact absurd trivial hplain

/-- A path to a file has an entry, which is the file or a link to it; no walk
passes through either. -/
theorem exists_endsAt_of_isFile (h : d.isFile p = true) :
    ∃ R, EndsAt d p R ∧ IsLast d R ∧
      ((∃ bytes, d.node? R = some (.file bytes)) ∨ ∃ target, d.node? R = some (.link target)) := by
  obtain ⟨S, bytes, hresolve⟩ := isFile_iff.1 h
  obtain ⟨e, hlocate, harrive⟩ := exists_of_resolve hresolve
  obtain ⟨rfl, hnode, hlength, hasked⟩ := of_arrive_eq_ok harrive
  obtain ⟨hslash, hname⟩ := hasked.resolve_left (by simp)
  obtain ⟨hfault, hwalk⟩ := locate_eq_ok_iff.1 hlocate
  obtain ⟨e', hwalk', rfl | ⟨_, target, slashes, hlink, hname', hlength', hall, hslash', htarget⟩⟩ :=
    hwalk.unfollowed
  · exact ⟨e'.route, ⟨e', locate_eq_ok_iff.2 ⟨hfault, hwalk'⟩, rfl, hname, hslash, hlength⟩,
      isLast_of_plain hnode id, Or.inl ⟨bytes, hnode⟩⟩
  · obtain rfl := htarget.slashes_eq_nil hall hname hslash
    rw [List.append_nil] at htarget
    obtain ⟨name, hsome⟩ := Option.isSome_iff_exists.1 hname'
    have hparent : e'.route.dropLast = e'.directory := by simp [Ending.route, hsome]
    have hlast : IsLast d e'.route := by
      constructor
      · simp [hlink]
      · intro target' hlink' rest hrest n e''
        rw [hlink] at hlink'
        cases hlink'
        rw [hparent]
        exact htarget.not_walks_append hname hnode id hrest
    exact ⟨e'.route, ⟨e', locate_eq_ok_iff.2 ⟨hfault, hwalk'⟩, rfl, hname', hslash', hlength'⟩,
      hlast, Or.inr ⟨target, hlink⟩⟩

theorem resolve_of_endsAt (h : EndsAt d p R) {bytes : ByteArray}
    (hnode : d.node? R = some (.file bytes)) : d.resolve p = .ok (R, .file bytes) := by
  obtain ⟨e, hlocate, hroute, hname, hslash, hlength⟩ := h
  obtain ⟨hfault, hwalk⟩ := locate_eq_ok_iff.1 hlocate
  have hfollowed := hwalk.followed fun target htarget => by
    rw [hroute, hnode] at htarget
    cases htarget
  exact bind_eq_ok_iff.2 ⟨e, locate_eq_ok_iff.2 ⟨hfault, hfollowed⟩,
    arrive_eq_ok hroute hnode hlength (Or.inr ⟨hslash, hname⟩)⟩

theorem isFile_of_endsAt (h : EndsAt d p R) {bytes : ByteArray}
    (hnode : d.node? R = some (.file bytes)) : d.isFile p = true :=
  isFile_iff.2 ⟨R, bytes, resolve_of_endsAt h hnode⟩

theorem find?_of_endsAt (h : EndsAt d p R) {bytes : ByteArray}
    (hnode : d.node? R = some (.file bytes)) : d.find? p = some (.file bytes) := by
  rw [find?, resolve_of_endsAt h hnode]
  rfl

theorem fromUTF8?_toUTF8 (text : String) : String.fromUTF8? text.toUTF8 = some text := by
  have hvalid : text.toUTF8.IsValidUTF8 := text.isValidUTF8
  rw [String.fromUTF8?, dif_pos hvalid]
  rfl

theorem readText_eq_ok_iff (h : EndsAt d p R) {bytes : ByteArray}
    (hnode : d.node? R = some (.file bytes)) {text : String} :
    d.readText p = .ok text ↔
      d.refuses (.read p) = none ∧ String.fromUTF8? bytes = some text := by
  unfold readText read
  cases hrefuses : d.refuses (.read p) with
  | some fault => simp [bind, Except.bind]
  | none =>
    rw [resolve_of_endsAt h hnode]
    cases hbytes : String.fromUTF8? bytes <;>
      simp [bind, Except.bind, pure, Except.pure, hbytes, throw, throwThe, MonadExceptOf.throw]

theorem readText_toUTF8 {text : String} (h : EndsAt d p R)
    (hnode : d.node? R = some (.file text.toUTF8)) (hrefuses : d.refuses (.read p) = none) :
    d.readText p = .ok text :=
  (readText_eq_ok_iff h hnode).2 ⟨hrefuses, fromUTF8?_toUTF8 text⟩

end Montage.Disk
