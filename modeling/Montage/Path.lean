import Montage.Text.Search

/-!
# Paths

A path is kept as it was written. It is a Unicode text, which is read, compared
and printed as it is: a name of other bytes is not modelled, nor is the text that
would be shown in its place.

What a path names is its list of components: doubled slashes, a slash at the end
and `.` steps say nothing, except that a relative path may begin with a `.` step,
which then counts. Two paths are the same when their components are, so `a//b/.`
is the same path as `a/b`.

The name of a path is its last component, if that is no `.` or `..` step. A dot
in the name, unless it is the first character, begins the extension.

`parent?` keeps the spelling of what is left: it drops the last component and
the slashes and `.` steps before it.
-/

namespace Montage

/-- A path as it was written. -/
structure Path where
  text : String
  deriving DecidableEq, Repr, Inhabited

namespace Path

inductive Component where
  | root
  | here
  | up
  | name (text : String)
  deriving DecidableEq, Repr

def pieces (p : Path) : List String := Text.split '/' p.text

def isAbsolute (p : Path) : Bool := Text.startsWith "/" p.text

def Component.ofPiece? (piece : String) : Option Component :=
  if piece = "" ∨ piece = "." then none
  else if piece = ".." then some .up
  else some (.name piece)

def components (p : Path) : List Component :=
  match p.pieces with
  | [] => []
  | first :: rest =>
    let head : List Component :=
      if p.isAbsolute then [.root]
      else if first = "." then [.here]
      else (Component.ofPiece? first).toList
    head ++ rest.filterMap Component.ofPiece?

/-- The two paths name the same steps. -/
def same (p q : Path) : Bool := p.components == q.components

theorem same_iff {p q : Path} : p.same q = true ↔ p.components = q.components := by
  simp [same]

@[simp] theorem same_refl (p : Path) : p.same p = true := by simp [same]

theorem same_comm (p q : Path) : p.same q = q.same p := by simp [same, Bool.beq_comm]

def fileName? (p : Path) : Option String :=
  match p.components.getLast? with
  | some (.name n) => some n
  | _ => none

def fileName (p : Path) : String := p.fileName?.getD ""

/-- The parts of a name before and behind its last dot; the first character
of a name does not begin an extension. -/
def splitName (name : String) : String × Option String :=
  match Text.splitFirst? (· == '.') name.toList.reverse with
  | some (ext, c :: stem) =>
    (String.ofList (c :: stem).reverse, some (String.ofList ext.reverse))
  | _ => (name, none)

def stem (p : Path) : String := (p.fileName?.map fun n => (splitName n).1).getD ""

def extension? (p : Path) : Option String := p.fileName?.bind fun n => (splitName n).2

/-- A piece that says nothing behind another one. -/
def isIdle (piece : String) : Bool := piece == "" || piece == "."

/-- The pieces without the idle ones at the end; the first piece stays. -/
def dropIdle (first : String) (rest : List String) : List String :=
  first :: (rest.reverse.dropWhile isIdle).reverse

def parent? (p : Path) : Option Path :=
  match p.pieces with
  | [] => none
  | first :: rest =>
    match (rest.reverse.dropWhile isIdle) with
    | _ :: before =>
      let left := dropIdle first before.reverse
      some ⟨if p.isAbsolute ∧ left.length = 1 then "/" else "/".intercalate left⟩
    | [] => if first = "" then none else some ⟨""⟩

/-- `p` followed by `q`; an absolute `q` stands alone. -/
def join (p q : Path) : Path :=
  if q.isAbsolute then q
  else if p.text = "" ∨ Text.endsWith "/" p.text then ⟨p.text ++ q.text⟩
  else ⟨p.text ++ "/" ++ q.text⟩

def Component.text : Component → String
  | root => "/"
  | here => "."
  | up => ".."
  | name n => n

/-- The path made absolute against the directory `cwd`, without looking at any
file: `.` steps and doubled slashes go, `..` steps and a slash at the end stay,
and so do exactly two slashes at the start. An empty path names nothing. -/
def absolute? (cwd p : Path) : Option Path :=
  if p.text = "" then none
  else
    let start : Path :=
      if Text.startsWith "//" p.text && !Text.startsWith "///" p.text then ⟨"//"⟩
      else if p.isAbsolute then ⟨"/"⟩
      else cwd
    let steps := p.components.filter fun c => c != .root && c != .here
    let joined := steps.foldl (fun q c => q.join ⟨c.text⟩) start
    some (if Text.endsWith "/" p.text then joined.join ⟨""⟩ else joined)

example : (Path.mk "a//b/./").same ⟨"a/b"⟩ = true ∧ (Path.mk "./a").same ⟨"a"⟩ = false := by decide
example : (Path.mk "/x/.hid").stem = ".hid" ∧ (Path.mk "s.tar.gz").extension? = some "gz" := by
  decide
example : (Path.mk "//a//b").parent? = some ⟨"//a"⟩ ∧ (Path.mk "//a").parent? = some ⟨"/"⟩ := by
  decide
example : (Path.mk "./b").parent? = some ⟨"."⟩ ∧ (Path.mk "/").parent? = none := by decide
example : (Path.mk ".").parent? = some ⟨""⟩ ∧ (Path.mk "a/.").parent? = some ⟨""⟩ := by decide
example : Path.absolute? ⟨"/"⟩ ⟨"./a/../b//"⟩ = some ⟨"/a/../b/"⟩ := by decide
example : Path.absolute? ⟨"/w"⟩ ⟨"//x"⟩ = some ⟨"//x"⟩ ∧ Path.absolute? ⟨"/w"⟩ ⟨"."⟩ = some ⟨"/w"⟩ := by
  decide

end Path

end Montage
