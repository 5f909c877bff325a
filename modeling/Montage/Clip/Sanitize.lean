import Montage.Clip.Basic
import Montage.Error

/-!
# Cleaning a list of clips

A clip fades in and out, and the fades of neighbouring clips meet in the
transition. So a clip has to be longer than the transition, and a cut inside one
source has to be at least as long.

`sanitize?` drops the clips that are too short and joins neighbours whose cut is
too short, each time comparing with the clip joined so far. Clips of one source
are sorted by their start first. The starts of different sources do not compare,
so with several sources the given order stands.
-/

namespace Montage.Clip

variable {τ : Type} [ClipTime τ]

def singleSource (clips : List (Clip τ)) : Bool :=
  match clips with
  | [] => true
  | first :: _ => clips.all (·.source == first.source)

/-- The order in which clips are edited. -/
def arrange (clips : List (Clip τ)) : List (Clip τ) :=
  if singleSource clips then clips.mergeSort (fun a b => ClipTime.sorts a.start b.start) else clips

/-- The cut between two clips is shorter than `gap`. -/
def closeTo (gap : τ) (a b : Clip τ) : Bool :=
  b.source == a.source && ClipTime.less (b.start - a.stop) gap

/-- Joins the clips behind `current` to it as long as the cuts are too short. -/
def joinClose (gap : τ) (current : Clip τ) : List (Clip τ) → List (Clip τ)
  | [] => [current]
  | next :: clips =>
    if closeTo gap current next then joinClose gap (current.withStop next.stop) clips
    else current :: joinClose gap next clips

def longEnough (gap : τ) (clips : List (Clip τ)) : List (Clip τ) :=
  (arrange clips).filter fun c => ClipTime.less gap c.duration

/-- The clips of an edit; nothing if no clip is long enough. -/
def sanitize? (gap : τ) (clips : List (Clip τ)) : Option (List (Clip τ)) :=
  match longEnough gap clips with
  | [] => none
  | first :: later => some (joinClose gap first later)

def sanitize (gap : τ) (clips : List (Clip τ)) : Except Error (List (Clip τ)) :=
  if clips.isEmpty then .error (.invalidEdit .noClips)
  else
    match sanitize? gap clips with
    | some clips => .ok clips
    | none => .error (.invalidEdit (.allTooShort (ClipTime.text gap)))

@[simp] theorem joinClose_nil (gap : τ) (current : Clip τ) :
    joinClose gap current [] = [current] := rfl

theorem joinClose_ne_nil (gap : τ) (current : Clip τ) (clips : List (Clip τ)) :
    joinClose gap current clips ≠ [] := by
  induction clips generalizing current with
  | nil => simp
  | cons next clips ih =>
    rw [joinClose]
    split
    · exact ih _
    · simp

theorem sanitize?_eq_none_iff {gap : τ} {clips : List (Clip τ)} :
    sanitize? gap clips = none ↔ longEnough gap clips = [] := by
  unfold sanitize?
  split <;> simp_all

end Montage.Clip
