import Montage.Disk.Change
import Montage.Proofs.Disk.Removal

/-!
# Moving files

Two disks are `Alike` if they have the same directories and links; then every
path has the same entry on both. Moving a file keeps a disk alike as long as no
directory or link is moved or replaced, and so does rewriting a file.
-/

namespace Montage.Disk

variable {d d' d0 : Disk} {p q : Path} {R : Route}

def nodeAt? (d : Disk) (p : Path) : Option Node :=
  match d.locate false p with
  | .ok e => d.node? e.route
  | .error _ => none

/-- The disks have the same directories and links. -/
structure Alike (d d' : Disk) : Prop where
  forth : Guides d d'
  back : Guides d' d

theorem Alike.refl (d : Disk) : Alike d d := ⟨(Within.refl d).guides, (Within.refl d).guides⟩

theorem Guides.trans {a b c : Disk} (h : Guides a b) (h' : Guides b c) : Guides a c :=
  ⟨h'.start.trans h.start,
    fun R node hguides hnode => h'.nodes R node hguides (h.nodes R node hguides hnode)⟩

theorem Alike.trans {a b c : Disk} (h : Alike a b) (h' : Alike b c) : Alike a c :=
  ⟨h.forth.trans h'.forth, h'.back.trans h.back⟩

theorem nodeAt?_of_locate {e : Ending} (h : d.locate false p = .ok e) :
    d.nodeAt? p = d.node? e.route := by
  rw [nodeAt?, h]

theorem nodeAt?_of_endsAt (h : EndsAt d p R) : d.nodeAt? p = d.node? R := by
  obtain ⟨e, hlocate, rfl, _⟩ := h
  exact nodeAt?_of_locate hlocate

theorem nodeAt?_of_guides (hdisks : Guides d d') {node : Node} (hguides : node.Guides)
    (h : d.nodeAt? p = some node) : d'.nodeAt? p = some node := by
  unfold nodeAt? at h
  split at h
  · rename_i e hlocate
    rw [nodeAt?_of_locate (locate_of_guides hdisks hlocate)]
    exact hdisks.nodes _ _ hguides h
  · cases h

theorem alike_put {node : Node} (hnode : ¬ node.Guides)
    (hthere : ∀ there, d.node? R = some there → ¬ there.Guides) : Alike d (d.put R node) := by
  constructor
  · refine ⟨rfl, ?_⟩
    intro S there hguides hS
    rw [node?_put, if_neg ?_]
    · exact hS
    · rintro ⟨_, rfl⟩
      exact hthere there hS hguides
  · refine ⟨rfl, ?_⟩
    intro S there hguides hS
    rw [node?_put] at hS
    split at hS
    · cases hS
      exact absurd hguides hnode
    · exact hS

theorem alike_drop (hthere : ∀ there, d.node? R = some there → ¬ there.Guides) :
    Alike d (d.drop R) := by
  constructor
  · refine ⟨rfl, ?_⟩
    intro S there hguides hS
    rw [node?_drop, if_neg ?_]
    · exact hS
    · rintro ⟨_, rfl⟩
      exact hthere there hS hguides
  · exact (within_drop d R).guides

theorem exists_replace_of_rename {old new : Path} (h : d.rename old new = .ok d') :
    ∃ source target node there, d.locate false old = .ok source ∧
      d.locate false new = .ok target ∧ (source.name.isNone || target.name.isNone) = false ∧
        d.lookup source = .ok (some node) ∧ d.lookup target = .ok there ∧
          asksForDirectory node source target = false ∧
            d.replace source.route target.route node there = .ok d' := by
  unfold rename at h
  split at h
  · cases h
  obtain ⟨source, hsource, h⟩ := bind_eq_ok_iff.1 h
  obtain ⟨target, htarget, h⟩ := bind_eq_ok_iff.1 h
  by_cases hnames : (source.name.isNone || target.name.isNone) = true
  · rw [if_pos hnames] at h
    cases h
  rw [if_neg hnames] at h
  obtain ⟨found, hfound, h⟩ := bind_eq_ok_iff.1 h
  cases found with
  | none => cases h
  | some node =>
      obtain ⟨there, hthere, h⟩ := bind_eq_ok_iff.1 h
      by_cases hasked : asksForDirectory node source target = true
      · rw [if_pos hasked] at h
        cases h
      rw [if_neg hasked] at h
      exact ⟨source, target, node, there, hsource, htarget, Bool.eq_false_iff.2 hnames, hfound,
        hthere, Bool.eq_false_iff.2 hasked, h⟩

theorem refuses_replace {S T : Route} {node : Node} {there : Option Node}
    (h : d.replace S T node there = .ok d') : d'.refuses = d.refuses := by
  unfold replace at h
  split at h
  · split at h
    · cases h
      rfl
    split at h
    · cases h
    split at h
    · split at h
      · cases h
      · cases h
        rfl
    · cases h
    · cases h
      rfl
  · cases h
  · cases h
    rfl

theorem refuses_rename {old new : Path} (h : d.rename old new = .ok d') :
    d'.refuses = d.refuses := by
  obtain ⟨_, _, _, _, _, _, _, _, _, _, hreplace⟩ := exists_replace_of_rename h
  exact refuses_replace hreplace

/-- What is no directory takes the place of anything but a directory. -/
theorem of_replace {S T : Route} {node : Node} {there : Option Node} (hnode : node ≠ .directory)
    (h : d.replace S T node there = .ok d') :
    there ≠ some .directory ∧ d' = (d.drop S).put T node := by
  unfold replace at h
  split at h
  · exact absurd rfl hnode
  · cases h
  · rename_i hthere
    cases h
    exact ⟨hthere, rfl⟩

/-- What is no directory leaves its entry when it is renamed, and takes the place of anything but a
directory. -/
theorem exists_move_of_rename {old new : Path} (h : d.rename old new = .ok d')
    (hold : d.nodeAt? old ≠ some .directory) :
    ∃ S T node, EndsAt d old S ∧ EndsAt d new T ∧ d.node? S = some node ∧
      d.node? T ≠ some .directory ∧ d' = (d.drop S).put T node := by
  obtain ⟨source, target, node, there, hsource, htarget, hnames, hfound, hthere, hasked, h⟩ :=
    exists_replace_of_rename h
  obtain ⟨hsourceLength, hnode⟩ := of_lookup_eq_ok hfound
  obtain ⟨htargetLength, hplace⟩ := of_lookup_eq_ok hthere
  rw [nodeAt?_of_locate hsource] at hold
  have hother : node ≠ .directory := fun heq => hold (heq ▸ hnode)
  obtain ⟨hdirectory, hmoved⟩ := of_replace hother h
  obtain ⟨hsourceName, htargetName⟩ : source.name.isSome = true ∧ target.name.isSome = true := by
    simpa [Option.isNone_iff_eq_none, Option.isSome_iff_ne_none] using hnames
  obtain ⟨hsourceSlash, htargetSlash⟩ : source.slash = false ∧ target.slash = false := by
    cases node with
    | directory => exact absurd rfl hother
    | link target => simpa [asksForDirectory] using hasked
    | file bytes => simpa [asksForDirectory] using hasked
    | sink => simpa [asksForDirectory] using hasked
  exact ⟨source.route, target.route, node,
    ⟨source, hsource, rfl, hsourceName, hsourceSlash, hsourceLength⟩,
    ⟨target, htarget, rfl, htargetName, htargetSlash, htargetLength⟩, hnode,
    hplace ▸ hdirectory, hmoved⟩

theorem exists_of_rename {old new : Path} (h : d.rename old new = .ok d')
    (hold : ∀ node, d.nodeAt? old = some node → ¬ node.Guides)
    (hnew : ∀ target, d.nodeAt? new ≠ some (.link target)) :
    ∃ S T node, EndsAt d old S ∧ EndsAt d new T ∧ d.node? S = some node ∧ ¬ node.Guides ∧
      (∀ there, d.node? T = some there → ¬ there.Guides) ∧ d' = (d.drop S).put T node := by
  obtain ⟨S, T, node, hS, hT, hnode, hdirectory, hmoved⟩ :=
    exists_move_of_rename h fun hdirectory => hold _ hdirectory trivial
  refine ⟨S, T, node, hS, hT, hnode, hold node ((nodeAt?_of_endsAt hS).trans hnode),
    fun there hthere => ?_, hmoved⟩
  cases there with
  | directory => exact absurd hthere hdirectory
  | link target => exact absurd ((nodeAt?_of_endsAt hT).trans hthere) (hnew target)
  | file bytes => exact id
  | sink => exact id

theorem exists_of_write {bytes : ByteArray} (h : d.write p bytes = .ok d') :
    ∃ e, d.locate true p = .ok e ∧
      (d.node? e.route = some .sink ∧ d' = d ∨
        d.node? e.route ≠ some .sink ∧ d' = d.put e.route (.file bytes)) := by
  unfold write at h
  split at h
  · cases h
  obtain ⟨e, hlocate, h⟩ := bind_eq_ok_iff.1 h
  refine ⟨e, hlocate, ?_⟩
  by_cases hname : (e.name.isNone || e.slash) = true
  · rw [if_pos hname] at h
    cases h
  rw [if_neg hname] at h
  obtain ⟨there, hlookup, h⟩ := bind_eq_ok_iff.1 h
  obtain ⟨_, hthere⟩ := of_lookup_eq_ok hlookup
  split at h
  · cases h
  · cases h
    exact Or.inl ⟨hthere, rfl⟩
  · rename_i hsink
    cases h
    exact Or.inr ⟨fun h => hsink (hthere ▸ h), rfl⟩

theorem eq_put_of_write {old bytes : ByteArray} (h : EndsAt d p R)
    (hnode : d.node? R = some (.file old)) (hwrite : d.write p bytes = .ok d') :
    d' = d.put R (.file bytes) := by
  obtain ⟨e, hlocate, harrive⟩ := exists_of_resolve (resolve_of_endsAt h hnode)
  obtain ⟨rfl, -⟩ := of_arrive_eq_ok harrive
  obtain ⟨e', hlocate', ⟨hsink, -⟩ | ⟨-, hput⟩⟩ := exists_of_write hwrite
  · cases hlocate.symm.trans hlocate'
    cases hnode.symm.trans hsink
  · cases hlocate.symm.trans hlocate'
    exact hput

theorem write_eq_ok {old : ByteArray} (h : EndsAt d p R) (hnode : d.node? R = some (.file old))
    (hrefuses : d.refuses (.write p) = none) (bytes : ByteArray) :
    d.write p bytes = .ok (d.put R (.file bytes)) := by
  obtain ⟨e, hlocate, harrive⟩ := exists_of_resolve (resolve_of_endsAt h hnode)
  obtain ⟨rfl, -, hlength, hdirectory | ⟨hslash, hname⟩⟩ := of_arrive_eq_ok harrive
  · cases hdirectory
  · have hnamed : (e.name.isNone || e.slash) = false := by simpa [hslash] using hname
    simp [write, hrefuses, hlocate, hnamed, lookup_eq_ok hlength, hnode, bind, Except.bind, pure,
      Except.pure]

theorem write_of_read {old bytes : ByteArray} (hread : d.read p = .ok old)
    (h : d.write p bytes = .ok d') :
    d' = d ∨ ∃ R there, d.node? R = some (.file there) ∧ d' = d.put R (.file bytes) := by
  unfold read at hread
  split at hread
  · cases hread
  obtain ⟨⟨R, node⟩, hresolve, hread⟩ := bind_eq_ok_iff.1 hread
  obtain ⟨e, hlocate, harrive⟩ := exists_of_resolve hresolve
  obtain ⟨rfl, hnode, _⟩ := of_arrive_eq_ok harrive
  obtain ⟨e', hlocate', ⟨-, hsame⟩ | ⟨hsink, hput⟩⟩ := exists_of_write h
  · exact Or.inl hsame
  · rw [hlocate] at hlocate'
    cases hlocate'
    cases node with
    | file there => exact Or.inr ⟨e.route, there, hnode, hput⟩
    | sink => exact absurd hnode hsink
    | directory => cases hread
    | link target => cases hread

end Montage.Disk
