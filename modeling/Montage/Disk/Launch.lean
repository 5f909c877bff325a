import Montage.Disk.Contents

/-!
# Starting programs

A program that is named without a slash is looked for in the directories of a
search path, any other one where its name leads. A file that cannot be executed
is passed over, as is a directory without the program, but if nothing better is
found the search fails for want of permission. Every other failure ends it.
-/

namespace Montage.Disk

/-- The program at a path, links followed, if it can be executed. -/
def executable (d : Disk) (isExecutable : Path → Bool) (p : Path) : Except SystemFault Path := do
  match ← d.resolve p with
  | (route, .file _) =>
    if isExecutable (pathOf route) then return pathOf route else throw .permissionDenied
  | _ => throw .permissionDenied

/-- Looks for a program in directories; `fault` is the failure if there is none. -/
def search (d : Disk) (isExecutable : Path → Bool) (program : Path) (fault : SystemFault) :
    List Path → Except SystemFault Path
  | [] => .error fault
  | directory :: directories =>
    match d.executable isExecutable (directory.join program) with
    | .ok p => .ok p
    | .error .permissionDenied => d.search isExecutable program .permissionDenied directories
    | .error found =>
      if found ≠ .notFound ∧ found ≠ .notADirectory then .error found
      else
        let fault := if fault = .permissionDenied then fault else found
        d.search isExecutable program fault directories

def launch (d : Disk) (isExecutable : Path → Bool) (searchPath : List Path) (program : String)
    (arguments : List String) : Except SystemFault Path :=
  if (program :: arguments).any (·.toList.contains '\x00') then .error .nulInArgument
  else if Text.contains "/" program then d.executable isExecutable ⟨program⟩
  else if program = "" then .error .notFound
  else if nameLimit < program.utf8ByteSize then .error .nameTooLong
  else d.search isExecutable ⟨program⟩ .notFound searchPath

end Montage.Disk
