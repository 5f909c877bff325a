import Montage.Disk.Temporary
import Montage.Proofs.Disk.Renaming

/-!
# Refusals stay

Nothing that is done to a disk changes which steps it refuses. So what is said
about refusals at the start of a job holds until its end.
-/

namespace Montage.Disk

variable {d d' : Disk} {p : Path}

theorem refuses_write {bytes : ByteArray} (h : d.write p bytes = .ok d') :
    d'.refuses = d.refuses := by
  obtain ⟨e, _, ⟨_, rfl⟩ | ⟨_, rfl⟩⟩ := exists_of_write h
  · rfl
  · rfl

theorem refuses_create (h : d.create p = .ok d') : d'.refuses = d.refuses := by
  obtain ⟨R, _, _, rfl⟩ := exists_of_create h
  rfl

theorem refuses_makeDirectory (h : d.makeDirectory p = .ok d') : d'.refuses = d.refuses := by
  unfold makeDirectory at h
  split at h
  · cases h
  obtain ⟨e, _, h⟩ := bind_eq_ok_iff.1 h
  obtain ⟨there, _, h⟩ := bind_eq_ok_iff.1 h
  split at h
  · cases h
  · cases h
    rfl

theorem refuses_ensureDirectory (h : d.ensureDirectory p = .ok d') : d'.refuses = d.refuses := by
  unfold ensureDirectory at h
  split at h
  · rename_i made hmake
    cases h
    exact refuses_makeDirectory hmake
  · split at h
    · cases h
      rfl
    · cases h

theorem refuses_makeEntry {here : Route} {name : String} (h : d.makeEntry here name = .ok d') :
    d'.refuses = d.refuses := by
  simp only [makeEntry] at h
  split at h
  · cases h
  · split at h
    · cases h
    · cases h
      rfl

theorem refuses_makeChain {here : Route} {steps : List String}
    (h : d.makeChain here steps = .ok d') : d'.refuses = d.refuses := by
  fun_induction makeChain d here steps with
  | case1 =>
      cases h
      rfl
  | case2 | case3 | case4 | case5 =>
      rename_i ih
      exact ih h
  | case6 => cases h
  | case7 =>
      rename_i hmake ih
      exact (ih h).trans (refuses_makeEntry hmake)
  | case8 => cases h

theorem refuses_makeDirectories (h : d.makeDirectories p = .ok d') : d'.refuses = d.refuses := by
  unfold makeDirectories at h
  split at h
  · cases h
    rfl
  · split at h
    · obtain ⟨made, hchain, h⟩ := bind_eq_ok_iff.1 h
      exact (refuses_ensureDirectory h).trans (refuses_makeChain hchain)
    · exact refuses_ensureDirectory h

theorem refuses_createTemporary {start extension : String} {marks : List String} {made : Path}
    (h : d.createTemporary p start extension marks = .ok (made, d')) : d'.refuses = d.refuses := by
  obtain ⟨d1, hdirectory, h⟩ := bind_eq_ok_iff.1 h
  generalize d1.rooted p = base at h
  dsimp only at h
  split at h
  · split at h
    · rename_i d2 hcreate
      cases h
      exact (refuses_create hcreate).trans (refuses_makeDirectories hdirectory)
    · cases h
  · cases h

end Montage.Disk
