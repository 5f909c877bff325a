import Montage.CommandLine.Perform

/-!
# The program

A run of the program takes the words of its command line and a workbench, and
ends with an exit code, what was printed, and the disk as it is then. Misuse
ends with code 2, a failure with code 1.
-/

namespace Montage.CommandLine

structure Ending where
  code : Nat
  printed : String := ""
  complaint : String := ""
  disk : Disk

def versionText : String := "composer-cli 0.3.0\n"

def helpText : String :=
  unlines (["Usage: composer [OPTIONS] <COMMAND>", "", "Commands:"] ++
    commandOptions.map (fun (name, options) =>
      "  " ++ name ++ String.join (options.map fun o => " --" ++ o.name)) ++
    ["", "Options of all commands:"] ++ commonOptions.map (fun o => "  --" ++ o.name))

def run (s : Surroundings) (w : Workbench) (arguments : List String) : Ending :=
  match parse s.environment arguments with
  | .error .misuse => { code := 2, complaint := helpText, disk := w.disk }
  | .error .help => { code := 0, printed := helpText, disk := w.disk }
  | .error .version => { code := 0, printed := versionText, disk := w.disk }
  | .ok parsed =>
    match (perform s parsed).run.run w with
    | (.ok printed, w) => { code := 0, printed, disk := w.disk }
    | (.error f, w) => { code := 1, complaint := f.report, disk := w.disk }

end Montage.CommandLine
