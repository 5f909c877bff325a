import Montage.Template.Basic
import Montage.Text.Blank

/-!
# Arguments from a template

The words of a command line are resolved one by one, so a value with blanks or
quotes stays one argument. A word that resolves to nothing but blanks is left
out.
-/

namespace Montage.Template

def arguments (params : Parameters) (words : List String) : List String :=
  (words.map (substitute params)).filter (!Text.isBlankText ·)

@[simp] theorem arguments_nil (params : Parameters) : arguments params [] = [] := rfl

theorem arguments_append (params : Parameters) (words more : List String) :
    arguments params (words ++ more) = arguments params words ++ arguments params more := by
  simp [arguments]

end Montage.Template
