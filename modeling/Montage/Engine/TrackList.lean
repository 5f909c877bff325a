import Montage.Engine.Workbench

/-!
# The list of tracks

Inputs with equal codecs are joined from a list of files. The list is a
temporary file that lives as long as the job that reads it: whoever makes it
removes it, whether the job succeeds or not.
-/

namespace Montage.TrackList

def create (inputs : List ConcatInput) : Work Path := do
  let w ← get
  match w.disk.createTemporary w.settings.temporary "tracklist" "txt" w.marks with
  | .error fault => throw (.system fault)
  | .ok (path, disk) =>
    set { w with disk }
    match disk.write path (Concat.fileList inputs).toUTF8 with
    | .ok disk =>
      set { w with disk }
      return path
    | .error fault =>
      modify fun w => { w with disk := Workbench.removeFile w.disk path }
      throw (.system fault)

def release (list : Option Path) : Work Unit :=
  modify fun w => { w with disk := list.toList.foldl Workbench.removeFile w.disk }

/-- Does a job, and then removes the list in any case. -/
def during {α : Type} (list : Option Path) (job : Work α) : Work α :=
  ExceptT.mk do
    let result ← job.run
    let _ ← (release list).run
    return result

end Montage.TrackList
