import Montage.Template.Basic

/-!
# Command fragments

A fragment is a whole piece of a command line, such as the inputs and the graph
of a concatenation. It may hold several words, so it has to be in place before
the command line is split into words; that is why fragments do not go through
`substitute`. The parameter `ffmpeg.command.name` holds the fragment of `name`.

Fragments are put in one after the other in the order of their names, each into
what the ones before it left.
-/

namespace Montage.Template

def commandKey : String := "ffmpeg.command"

def fragmentKey (name : String) : String := commandKey ++ "." ++ name

def fragments (params : Parameters) : List (String × String) :=
  params.toList.filterMap fun (key, value) =>
    (Text.dropStart? (fragmentKey "") key).map fun name => (name, value)

def splice (commandLine : String) (fragment : String × String) : String :=
  Text.replaced (placeholder fragment.1) fragment.2 commandLine

def expand (params : Parameters) (commandLine : String) : String :=
  (fragments params).foldl splice commandLine

end Montage.Template
