import Montage.Error

/-!
# Failures of the program

What the program reports when a command fails: the chain of causes from the
outermost to the innermost, on one line. A cause that wraps another one and
already shows it is followed by that one all the same.
-/

namespace Montage.CommandLine

inductive Failure where
  | error (cause : Error)
  | system (fault : SystemFault)
  | notAFile (path : Path)
  | within (context : String) (cause : Failure)
  deriving DecidableEq, Repr

namespace Failure

/-- The messages of all causes, the outermost first. -/
def chain : Failure → List String
  | error cause => cause.chain
  | system fault => [fault.message]
  | notAFile path => ["Invalid input path '" ++ path.text ++ "': not a file"]
  | within context cause => context :: cause.chain

def report (f : Failure) : String := "Error: " ++ ": ".intercalate f.chain ++ "\n"

example : (within "Failed to load" (error (.system .notFound))).report =
    "Error: Failed to load: IO error: No such file or directory (os error 2): " ++
      "No such file or directory (os error 2)\n" := by decide

end Failure

end Montage.CommandLine
