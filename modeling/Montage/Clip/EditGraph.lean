import Montage.Clip.Basic
import Montage.Graph.Clause
import Montage.Timing

/-!
# The graph of an edit

Every clip is trimmed out of its source and fades in and out. One clip alone
writes to the pad of the edit itself. Several clips write to numbered pads, and
one more clause for each kind of stream joins those.
-/

namespace Montage

def StreamKind.editPad : StreamKind → Pad
  | video => .named "ov"
  | audio => .named "oa"

def StreamKind.clipPad (kind : StreamKind) (index : Nat) : Pad :=
  .named (kind.letter.toString ++ toString index)

namespace Clip

/-- Where the fade-out of a clip starts; never before the clip does. -/
def fadeOutStart {τ : Type} [ClipTime τ] [OfNat τ 0] (c : Clip τ) (fade : τ) : τ :=
  let start := c.duration - fade
  if ClipTime.less 0 start then start else 0

def trimFilter (c : Clip Float) (fade : Float) (kind : StreamKind) : String :=
  let a := kind.mark
  a ++ "trim=" ++ clauseSeconds c.start ++ ":duration=" ++ clauseSeconds c.duration ++ "," ++
    a ++ "setpts=PTS-STARTPTS" ++
    if 0 < fade then
      "," ++ a ++ "fade=t=in:st=0:d=" ++ clauseSeconds fade ++ "," ++
        a ++ "fade=t=out:st=" ++ clauseSeconds (c.fadeOutStart fade) ++ ":d=" ++ clauseSeconds fade
    else ""

def trimClause (c : Clip Float) (fade : Float) (kind : StreamKind) (out : Pad) : Clause :=
  ⟨[.stream c.source kind.letter], c.trimFilter fade kind, [out]⟩

def joinClause (kind : StreamKind) (count : Nat) : Clause :=
  { reads := (List.range count).map kind.clipPad
    filter := "concat=n=" ++ toString count ++
      match kind with
      | .video => ":unsafe=1"
      | .audio => ":v=0:a=1"
    writes := [kind.editPad] }

def streamKinds (video audio : Bool) : List StreamKind :=
  (if video then [.video] else []) ++ (if audio then [.audio] else [])

def editGraph (clips : List (Clip Float)) (fade : Float) (video audio : Bool) : List Clause :=
  let kinds := streamKinds video audio
  let trims := clips.zipIdx.flatMap fun (c, i) =>
    kinds.map fun kind =>
      c.trimClause fade kind (if clips.length = 1 then kind.editPad else kind.clipPad i)
  let joins := if 1 < clips.length then kinds.map (joinClause · clips.length) else []
  trims ++ joins

end Clip

end Montage
