import Montage.Error
import Montage.Text.Blank

/-!
# Frames and places in them

A frame has a size in pixels, written `WIDTHxHEIGHT`. A layout is a size at an
offset inside a frame.
-/

namespace Montage

structure FrameSize where
  width : Nat
  height : Nat
  deriving DecidableEq, Repr

namespace FrameSize

def isEmpty (s : FrameSize) : Bool := s.width == 0 || s.height == 0

/-- Reads `WIDTHxHEIGHT`. Blanks around the text and its numbers do not matter. -/
def ofText (text : String) : Except Error FrameSize :=
  match Text.splitFirst? (fun c => c == 'x' || c == 'X') (Text.trim text.toList) with
  | none => .error (.invalidInput (.noSeparator text))
  | some (width, height) =>
    match readNatural natural32 (Text.trim width), readNatural natural32 (Text.trim height) with
    | .ok width, .ok height => .ok ⟨width, height⟩
    | _, _ => .error (.invalidInput (.invalidSize text))

def arguments (s : FrameSize) : String := toString s.width ++ ":" ++ toString s.height

end FrameSize

structure Layout where
  x : Int
  y : Int
  size : FrameSize
  deriving DecidableEq, Repr

namespace Layout

def position (l : Layout) : String := toString l.x ++ ":" ++ toString l.y

/-- Reads `WIDTHxHEIGHT+X+Y`; offsets that are left out are zero, and what
follows them is not read. -/
def ofText? (text : String) : Option Layout :=
  let offset : Option String → Option Int
    | none => some 0
    | some part => (readInteger integer32 part.toList).toOption
  match Text.split '+' text with
  | [] => none
  | size :: offsets => do
    let size ← (FrameSize.ofText size).toOption
    let x ← offset offsets[0]?
    let y ← offset offsets[1]?
    return ⟨x, y, size⟩

end Layout

end Montage
